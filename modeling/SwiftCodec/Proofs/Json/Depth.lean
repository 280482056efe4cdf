import SwiftCodec.Proofs.Json.Grammar

/-!
How deep a value nests. The limit of the reader bounds the depth of what stands in a text, and
does nothing else: below it, neither the value nor the place where it ends depends on the limit.
-/
namespace SwiftCodec

namespace Json

mutual
/-- How many containers are open at once on the way to the innermost part of a value. -/
def depth : Json → Nat
  | .array items => depthItems items + 1
  | .object members => depthMembers members + 1
  | _ => 0
termination_by structural j => j
def depthItems : List Json → Nat
  | [] => 0
  | j :: rest => max (depth j) (depthItems rest)
termination_by structural js => js
def depthMembers : List (String × Json) → Nat
  | [] => 0
  | (_, j) :: rest => max (depth j) (depthMembers rest)
termination_by structural ms => ms
end

theorem depthMembers_le {members : List (String × Json)} {n : Nat} :
    depthMembers members ≤ n ↔ ∀ m ∈ members, m.2.depth ≤ n := by
  induction members with
  | nil => simp [depthMembers]
  | cons m rest ih => rw [depthMembers, Nat.max_le, ih, List.forall_mem_cons]

variable {c d : Cursor} {j : Json}

theorem Word.depth (word : Word c j d) : j.depth = 0 := by
  cases word <;> rfl

mutual
theorem Stands.depth_le {limit : Nat} {c d : Cursor} {j : Json} :
    Stands limit c j d → j.depth ≤ limit - 1
  | .word word => by
    rw [word.depth]
    exact Nat.zero_le _
  | .array _ inside => by
    have items := Items.depth_le inside
    rw [Json.depth]
    omega
  | .object _ inside => by
    have members := Members.depth_le inside
    rw [Json.depth]
    omega
theorem Items.depth_le {limit : Nat} {first : Bool} {c d : Cursor} {js : List Json} :
    Items limit first c js d → depthItems js ≤ limit - 1
  | .done _ => Nat.zero_le _
  | .more _ head tail => Nat.max_le.mpr ⟨Stands.depth_le head, Items.depth_le tail⟩
theorem Members.depth_le {limit : Nat} {first : Bool} {c d : Cursor} {ms : List (String × Json)} :
    Members limit first c ms d → depthMembers ms ≤ limit - 1
  | .done _ => Nat.zero_le _
  | .more _ _ head tail => Nat.max_le.mpr ⟨Stands.depth_le head, Members.depth_le tail⟩
end

mutual
/-- Any limit that leaves room for a value will do. -/
theorem Stands.relimit {limit : Nat} {c d : Cursor} {j : Json} :
    Stands limit c j d → ∀ other, j.depth ≤ other - 1 → Stands other c j d
  | .word word, _, _ => .word word
  | .array head inside, other, room => by
    rw [Json.depth] at room
    obtain ⟨k, rfl⟩ : ∃ k, other = k + 2 := ⟨other - 2, by omega⟩
    exact .array head (Items.relimit inside (k + 1) (by omega))
  | .object head inside, other, room => by
    rw [Json.depth] at room
    obtain ⟨k, rfl⟩ : ∃ k, other = k + 2 := ⟨other - 2, by omega⟩
    exact .object head (Members.relimit inside (k + 1) (by omega))
theorem Items.relimit {limit : Nat} {first : Bool} {c d : Cursor} {js : List Json} :
    Items limit first c js d → ∀ other, depthItems js ≤ other - 1 → Items other first c js d
  | .done closes, _, _ => .done closes
  | .more steps head tail, other, room =>
    .more steps (Stands.relimit head other (Nat.max_le.mp room).1)
      (Items.relimit tail other (Nat.max_le.mp room).2)
theorem Members.relimit {limit : Nat} {first : Bool} {c d : Cursor} {ms : List (String × Json)} :
    Members limit first c ms d → ∀ other, depthMembers ms ≤ other - 1 →
      Members other first c ms d
  | .done closes, _, _ => .done closes
  | .more steps colon head tail, other, room =>
    .more steps colon (Stands.relimit head other (Nat.max_le.mp room).1)
      (Members.relimit tail other (Nat.max_le.mp room).2)
end

/-- At one cursor one value stands, whatever the limits. -/
theorem Stands.unique {limit limit' : Nat} {d' : Cursor} {j' : Json} (one : Stands limit c j d)
    (other : Stands limit' c j' d') : j = j' ∧ d = d' := by
  -- Both are read at a limit with room for either, and reading has one result.
  have room := one.depth_le
  have room' := other.depth_le
  have read := (one.relimit (max limit limit') (by omega)).read (2 * c.rest.length) (by omega)
  have read' := (other.relimit (max limit limit') (by omega)).read (2 * c.rest.length) (by omega)
  rw [read] at read'
  cases read'
  exact ⟨rfl, rfl⟩

/-- A value that is too deep is not read. -/
theorem Stands.read_only {limit limit' n : Nat} {r : Json × Cursor} (stands : Stands limit c j d)
    (read : c.value n limit' = .ok r) : r = (j, d) ∧ j.depth ≤ limit' - 1 := by
  have found := (stands_of_read n).1 _ _ _ _ read
  obtain ⟨rfl, rfl⟩ := found.unique stands
  exact ⟨rfl, found.depth_le⟩

end Json

end SwiftCodec
