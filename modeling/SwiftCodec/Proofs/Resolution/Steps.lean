import SwiftCodec.Proofs.Defect.Traversal
import SwiftCodec.Proofs.TypeExpr.Nodes
import SwiftCodec.Registry.Resolution

/-!
Alias resolution, one node at a time: what becomes of a name, what becomes of a type with
arguments, and the induction that goes through both, into the arguments of a type and into the
arguments of the target at the end of a chain.
-/
namespace SwiftCodec.Aliases

variable {m : Aliases} {params chain : List String}

theorem find?_of_target? {name : String} {t : TypeExpr} (known : m.target? name = some t) :
    m.find? name = some t := by
  unfold target? at known
  split at known
  · cases known
  · exact known

theorem mem_entries_of_target? {name : String} {t : TypeExpr} (known : m.target? name = some t) :
    (name, t) ∈ m.entries := by
  obtain ⟨before, after, entries, _⟩ := List.lookup_eq_some_iff.mp (find?_of_target? known)
  simp [entries]

theorem resolveAll_eq_mapM (ts : List TypeExpr) :
    m.resolveAll params chain ts = ts.mapM (m.resolveIn params chain) := by
  induction ts with
  | nil => rw [resolveAll]; rfl
  | cons t ts ih => rw [resolveAll, List.mapM_cons, ih]; rfl

/-- What becomes of a name when its chain of targets has been followed. -/
def replace (m : Aliases) (base : String) (target : Option String) (chain : List String) :
    Option TypeExpr → Except Defect TypeExpr
  | none => .ok ⟨base, target, []⟩
  | some ⟨final, _, []⟩ => .ok ⟨base, some final, []⟩
  | some ⟨final, _, arg :: args⟩ => do
    .ok ⟨final, none, ← (arg :: args).mapM (m.resolveIn [] chain)⟩

theorem resolveIn_leaf (base : String) (target : Option String) :
    m.resolveIn params chain ⟨base, target, []⟩ =
      if base ∈ params then .ok ⟨base, target, []⟩
      else m.follow chain base >>= fun (chain', end?) => m.replace base target chain' end? := by
  rw [resolveIn]
  simp only [List.contains_iff_mem]
  split
  · rfl
  · split <;> rename_i reached <;> rw [reached] <;>
      simp only [bind, Except.bind, replace, resolveAll_eq_mapM]

theorem resolveIn_cons (base : String) (target : Option String) (arg : TypeExpr)
    (args : List TypeExpr) :
    m.resolveIn params chain ⟨base, target, arg :: args⟩ =
      (arg :: args).mapM (m.resolveIn params chain) >>= fun us => .ok ⟨base, target, us⟩ := by
  rw [resolveIn, resolveAll_eq_mapM]

theorem follow_eq (name : String) :
    m.follow chain name =
      match m.target? name with
      | none => .ok (chain, none)
      | some t =>
        if name ∈ chain then .error (.aliasCycle name)
        else if t.args.isEmpty then
          m.follow (name :: chain) t.base >>= fun (chain, further) =>
            .ok (chain, some (further.getD t))
        else .ok (name :: chain, some t) := by
  rw [follow]
  split <;> rename_i known <;> simp [known]

theorem resolveIn_shadowed {base : String} {target : Option String} (shadowed : base ∈ params) :
    m.resolveIn params chain ⟨base, target, []⟩ = .ok ⟨base, target, []⟩ := by
  rw [resolveIn_leaf, if_pos shadowed]

theorem resolveIn_name {base : String} {target : Option String} (exposed : base ∉ params) :
    m.resolveIn params chain ⟨base, target, []⟩ =
      m.follow chain base >>= fun (chain', end?) => m.replace base target chain' end? := by
  rw [resolveIn_leaf, if_neg exposed]

theorem resolveIn_applied {base : String} {target : Option String} {args : List TypeExpr}
    (applied : args ≠ []) :
    m.resolveIn params chain ⟨base, target, args⟩ =
      args.mapM (m.resolveIn params chain) >>= fun us => .ok ⟨base, target, us⟩ := by
  cases args with
  | nil => contradiction
  | cons arg args => exact resolveIn_cons base target arg args

theorem follow_unknown {name : String} (unknown : m.target? name = none) :
    m.follow chain name = .ok (chain, none) := by
  rw [follow_eq, unknown]

theorem follow_plain {name : String} {t : TypeExpr} (known : m.target? name = some t)
    (fresh : name ∉ chain) (plain : t.args.isEmpty) :
    m.follow chain name =
      m.follow (name :: chain) t.base >>= fun (chain, further) =>
        .ok (chain, some (further.getD t)) := by
  rw [follow_eq, known]
  simp only [if_neg fresh, if_pos plain]

theorem follow_applied {name : String} {t : TypeExpr} (known : m.target? name = some t)
    (fresh : name ∉ chain) (applied : ¬ t.args.isEmpty) :
    m.follow chain name = .ok (name :: chain, some t) := by
  rw [follow_eq, known]
  simp only [if_neg fresh, if_neg applied]

/-- The targets of an alias end somewhere, if only in the alias itself. -/
theorem follow_none {name : String} {chain' : List String}
    (reached : m.follow chain name = .ok (chain', none)) :
    m.target? name = none ∧ chain' = chain := by
  rw [follow_eq] at reached
  split at reached
  · rename_i unknown
    cases reached
    exact ⟨unknown, rfl⟩
  · split_ifs at reached
    · obtain ⟨⟨_, _⟩, _, h⟩ := bind_eq_ok.mp reached
      cases h
    · cases reached

/-- A chain is followed to its end: a final name is no alias. -/
theorem follow_final {name : String} {chain' : List String} {end? : Option TypeExpr}
    (reached : m.follow chain name = .ok (chain', end?)) {t : TypeExpr} (ends : end? = some t)
    (plain : t.args = []) : m.target? t.base = none := by
  fun_induction follow m chain name generalizing chain' end? t with
  | case1 => cases reached; cases ends
  | case2 => cases reached
  | case3 chain name u known fresh _ ih =>
    obtain ⟨⟨further, end?⟩, hfurther, h⟩ := bind_eq_ok.mp reached
    cases h
    cases end? with
    | none => cases ends; exact (follow_none hfurther).1
    | some t' => cases ends; exact ih hfurther rfl plain
  | case4 chain name u known fresh applied =>
    cases reached
    cases ends
    exact absurd (List.isEmpty_iff.mpr plain) applied

/-- Resolution goes down into the arguments of a type under the same chain, and into those of the
target at the end of a chain under a longer one, where no parameters shadow anything. -/
theorem resolve_induction (m : Aliases)
    {motive : List String → List String → TypeExpr → Prop}
    (name : ∀ params chain base target,
      (∀ chain' t, m.follow chain base = .ok (chain', some t) → ∀ a ∈ t.args, motive [] chain' a) →
      motive params chain ⟨base, target, []⟩)
    (applied : ∀ params chain base target args, args ≠ [] →
      (∀ a ∈ args, motive params chain a) → motive params chain ⟨base, target, args⟩)
    (params chain : List String) : ∀ t, motive params chain t
  | ⟨base, target, []⟩ => name params chain base target fun chain' t _reached a _ =>
      resolve_induction m name applied [] chain' a
  | ⟨base, target, arg :: args⟩ =>
      applied params chain base target (arg :: args) (List.cons_ne_nil _ _) fun a _ =>
        resolve_induction m name applied params chain a
termination_by t => ((m.unexpanded chain).length, sizeOf t)
decreasing_by
  · have := follow_chain _reached
    exact Prod.Lex.left _ _ (by simp at this; omega)
  · refine Prod.Lex.right _ ?_
    have := List.sizeOf_lt_of_mem ‹a ∈ arg :: args›
    simp only [TypeExpr.mk.sizeOf_spec]
    omega

end SwiftCodec.Aliases
