import SwiftCodec.Json.Basic

/-!
Values without repeated keys, which are the ones that keeping one member for a key leaves as they
are.
-/
namespace SwiftCodec

namespace Json

mutual
/-- No object of a value has two members with one key. -/
def Distinct : Json → Prop
  | .array items => DistinctItems items
  | .object members => (members.map Prod.fst).Nodup ∧ DistinctMembers members
  | _ => True
termination_by structural j => j
def DistinctItems : List Json → Prop
  | [] => True
  | j :: rest => Distinct j ∧ DistinctItems rest
termination_by structural js => js
def DistinctMembers : List (String × Json) → Prop
  | [] => True
  | (_, j) :: rest => Distinct j ∧ DistinctMembers rest
termination_by structural ms => ms
end

theorem distinctItems_iff {items : List Json} : DistinctItems items ↔ ∀ j ∈ items, j.Distinct := by
  induction items with
  | nil => simp [DistinctItems]
  | cons j rest ih => rw [DistinctItems, ih, List.forall_mem_cons]

theorem distinctMembers_iff {members : List (String × Json)} :
    DistinctMembers members ↔ ∀ m ∈ members, m.2.Distinct := by
  induction members with
  | nil => simp [DistinctMembers]
  | cons m rest ih => rw [DistinctMembers, ih, List.forall_mem_cons]

mutual
theorem unrepeated_of_distinct : ∀ j : Json, j.Distinct → j.unrepeated = j
  | .null, _ => rfl
  | .bool _, _ => rfl
  | .number _, _ => rfl
  | .string _, _ => rfl
  | .array items, distinct => congrArg Json.array (unrepeatedItems_of_distinct items distinct)
  | .object members, distinct =>
    congrArg Json.object (unrepeatedMembers_of_distinct members [] distinct.1 distinct.2)
theorem unrepeatedItems_of_distinct :
    ∀ items : List Json, DistinctItems items → unrepeatedItems items = items
  | [], _ => rfl
  | j :: rest, distinct => by
    rw [unrepeatedItems, unrepeated_of_distinct j distinct.1,
      unrepeatedItems_of_distinct rest distinct.2]
theorem unrepeatedMembers_of_distinct :
    ∀ members kept : List (String × Json), ((kept ++ members).map Prod.fst).Nodup →
      DistinctMembers members → unrepeatedMembers kept members = kept ++ members
  | [], kept, _, _ => by rw [unrepeatedMembers, List.append_nil]
  | (k, j) :: rest, kept, keys, distinct => by
    have fresh : k ∉ kept.map Prod.fst := by
      intro known
      rw [List.map_append] at keys
      exact (List.nodup_append.mp keys).2.2 k known k List.mem_cons_self rfl
    have keys' : ((kept ++ [(k, j)] ++ rest).map Prod.fst).Nodup := by
      rwa [List.append_assoc]
    rw [unrepeatedMembers, unrepeated_of_distinct j distinct.1, NameMap.insertInto_fresh fresh,
      unrepeatedMembers_of_distinct rest _ keys' distinct.2, List.append_assoc]
    rfl
end

end Json

end SwiftCodec
