import SwiftCodec.Defect
import Mathlib.Data.List.Forall2

/-!
Steps that may fail, one after the other. A traversal succeeds exactly when each of its steps does,
and its failure is that of one of them.
-/
namespace SwiftCodec

variable {ε α β : Type}

theorem bind_eq_ok {x : Except ε α} {f : α → Except ε β} {b : β} :
    (x >>= f) = .ok b ↔ ∃ a, x = .ok a ∧ f a = .ok b := by
  cases x <;> simp [bind, Except.bind]

/-- A check has nothing to pass on. -/
theorem check_eq_ok {x : Except ε Unit} {f : Unit → Except ε β} {b : β} :
    (x >>= f) = .ok b ↔ x = .ok () ∧ f () = .ok b := by
  cases x <;> simp [bind, Except.bind]

theorem bind_eq_error {x : Except ε α} {f : α → Except ε β} {d : ε} :
    (x >>= f) = .error d ↔ x = .error d ∨ ∃ a, x = .ok a ∧ f a = .error d := by
  cases x <;> simp [bind, Except.bind]

theorem check_eq_error {x : Except ε Unit} {f : Unit → Except ε β} {d : ε} :
    (x >>= f) = .error d ↔ x = .error d ∨ x = .ok () ∧ f () = .error d := by
  cases x <;> simp [bind, Except.bind]

/-- What comes after the last check cannot fail. -/
theorem bind_ok_eq_error {x : Except ε α} {g : α → β} {d : ε} :
    (x >>= fun a => .ok (g a)) = .error d ↔ x = .error d := by
  cases x <;> simp [bind, Except.bind]

theorem map_eq_ok {x : Except ε α} {f : α → β} {b : β} :
    x.map f = .ok b ↔ ∃ a, x = .ok a ∧ f a = b := by
  cases x <;> simp [Except.map]

theorem mapError_eq_ok {ε' : Type} {x : Except ε α} {f : ε → ε'} {a : α} :
    x.mapError f = .ok a ↔ x = .ok a := by
  cases x <;> simp [Except.mapError]

theorem map_eq_error {x : Except ε α} {f : α → β} {d : ε} :
    x.map f = .error d ↔ x = .error d := by
  cases x <;> simp [Except.map]

theorem mapM_eq_ok {f : α → Except ε β} {as : List α} {bs : List β} :
    as.mapM f = .ok bs ↔ List.Forall₂ (fun a b => f a = .ok b) as bs := by
  induction as generalizing bs with
  | nil => cases bs <;> simp [pure, Except.pure]
  | cons a as ih =>
    rw [List.mapM_cons]
    constructor
    · intro h
      obtain ⟨b, hb, h⟩ := bind_eq_ok.mp h
      obtain ⟨rest, hrest, h⟩ := bind_eq_ok.mp h
      cases h
      exact .cons hb (ih.mp hrest)
    · intro h
      cases h with
      | cons hb hrest => exact bind_eq_ok.mpr ⟨_, hb, bind_eq_ok.mpr ⟨_, ih.mpr hrest, rfl⟩⟩

theorem forM_eq_ok {f : α → Except ε Unit} {as : List α} :
    as.forM f = .ok () ↔ ∀ a ∈ as, f a = .ok () := by
  induction as with
  | nil => simp [pure, Except.pure]
  | cons a as ih =>
    change (f a >>= fun _ => as.forM f) = .ok () ↔ _
    rw [check_eq_ok, ih, List.forall_mem_cons]

theorem exists_of_forall₂ {R : α → β → Prop} {as : List α} {bs : List β}
    (h : List.Forall₂ R as bs) {a : α} (member : a ∈ as) : ∃ b ∈ bs, R a b := by
  induction h with
  | nil => cases member
  | @cons a' b as bs hab _ ih =>
    rcases List.mem_cons.mp member with rfl | member
    · exact ⟨b, List.mem_cons_self, hab⟩
    · obtain ⟨b', hb', related⟩ := ih member
      exact ⟨b', List.mem_cons_of_mem _ hb', related⟩

theorem mapM_congr_forall₂ {α' : Type} {f : α → Except Defect β} {g : α' → Except Defect β}
    {as : List α} {as' : List α'} (same : List.Forall₂ (fun a a' => f a = g a') as as') :
    as.mapM f = as'.mapM g := by
  induction same with
  | nil => rfl
  | cons head _ ih => rw [List.mapM_cons, List.mapM_cons, head, ih]

theorem mapM_congr {f g : α → Except Defect β} {as : List α} (same : ∀ a ∈ as, f a = g a) :
    as.mapM f = as.mapM g := mapM_congr_forall₂ (List.forall₂_same.mpr same)

theorem mapM_bind_ok {γ : Type} {f : α → Except Defect β} (g : β → γ) (as : List α) :
    (as.mapM fun a => f a >>= fun b => .ok (g b)) = as.mapM f >>= fun bs => .ok (bs.map g) := by
  induction as with
  | nil => rfl
  | cons a as ih =>
    rw [List.mapM_cons, List.mapM_cons, ih]
    cases f a with
    | error => rfl
    | ok b => cases as.mapM f <;> rfl

/-- What one step becomes under related inputs, a whole traversal becomes. -/
theorem mapM_related {α' β' : Type} {R : α → α' → Prop} {S : β → β' → Prop}
    {f : α → Except Defect β} {g : α' → Except Defect β'} {as : List α} {as' : List α'}
    (related : List.Forall₂ R as as')
    (step : ∀ a ∈ as, ∀ a', R a a' → ∀ b, f a = .ok b → ∃ b', g a' = .ok b' ∧ S b b')
    {bs : List β} (h : as.mapM f = .ok bs) :
    ∃ bs', as'.mapM g = .ok bs' ∧ List.Forall₂ S bs bs' := by
  have results := mapM_eq_ok.mp h
  clear h
  induction related generalizing bs with
  | nil =>
    cases results
    exact ⟨[], rfl, .nil⟩
  | @cons a a' as as' head _ ih =>
    cases results with
    | @cons _ b _ bs hb rest =>
      obtain ⟨b', hb', near⟩ := step a List.mem_cons_self a' head b hb
      obtain ⟨bs', hbs', tail⟩ := ih (fun a member => step a (List.mem_cons_of_mem _ member)) rest
      exact ⟨b' :: bs', mapM_eq_ok.mpr (.cons hb' (mapM_eq_ok.mp hbs')), .cons near tail⟩

theorem mapM_ok_mono {f g : α → Except Defect β} {as : List α} {bs : List β}
    (step : ∀ a ∈ as, ∀ b, f a = .ok b → g a = .ok b) (h : as.mapM f = .ok bs) :
    as.mapM g = .ok bs := by
  have same : List.Forall₂ Eq as as := List.forall₂_same.mpr fun _ _ => rfl
  have kept : ∀ a ∈ as, ∀ a', a = a' → ∀ b, f a = .ok b → ∃ b', g a' = .ok b' ∧ b = b' := by
    rintro a member _ rfl b hb
    exact ⟨b, step a member b hb, rfl⟩
  obtain ⟨bs', h', equal⟩ := mapM_related same kept h
  rw [List.forall₂_eq_eq_eq] at equal
  exact equal ▸ h'

/-- What another step makes of the results of a traversal, it makes of them one by one. -/
theorem mapM_results {f : α → Except Defect β} {g : β → Except Defect β} {as : List α} {bs : List β}
    (h : as.mapM f = .ok bs) (step : ∀ a ∈ as, ∀ b, f a = .ok b → g b = .ok b) :
    bs.mapM g = .ok bs := by
  refine mapM_eq_ok.mpr (List.forall₂_same.mpr fun b member => ?_)
  obtain ⟨a, source, hb⟩ := exists_of_forall₂ (mapM_eq_ok.mp h).flip member
  exact step a source b hb

theorem mapM_cons_eq_error {f : α → Except ε β} {a : α} {as : List α} {d : ε} :
    (a :: as).mapM f = .error d ↔ f a = .error d ∨ ∃ b, f a = .ok b ∧ as.mapM f = .error d := by
  rw [List.mapM_cons, bind_eq_error]
  refine or_congr_right (exists_congr fun b => and_congr_right fun _ => ?_)
  exact bind_ok_eq_error

theorem exists_of_mapM_eq_error {f : α → Except ε β} {as : List α} {d : ε}
    (h : as.mapM f = .error d) : ∃ a ∈ as, f a = .error d := by
  induction as with
  | nil => cases h
  | cons a as ih =>
    rcases mapM_cons_eq_error.mp h with ha | ⟨_, _, hrest⟩
    · exact ⟨a, List.mem_cons_self, ha⟩
    · obtain ⟨a', member, ha'⟩ := ih hrest
      exact ⟨a', List.mem_cons_of_mem _ member, ha'⟩

theorem mapM_append_eq_error {f : α → Except ε β} {as as' : List α} {d : ε} :
    (as ++ as').mapM f = .error d ↔
      as.mapM f = .error d ∨ ∃ bs, as.mapM f = .ok bs ∧ as'.mapM f = .error d := by
  rw [List.mapM_append, bind_eq_error]
  refine or_congr_right (exists_congr fun bs => and_congr_right fun _ => ?_)
  exact bind_ok_eq_error

/-- Whatever it is that has failed. -/
def Fails (x : Except ε α) : Prop := ∃ e, x = .error e

theorem ok_or_fails (x : Except ε α) : (∃ a, x = .ok a) ∨ Fails x := by
  cases x with
  | ok a => exact .inl ⟨a, rfl⟩
  | error e => exact .inr ⟨e, rfl⟩

theorem fails_iff_not_ok {x : Except ε α} : Fails x ↔ ¬ ∃ a, x = .ok a := by
  cases x <;> simp [Fails]

theorem fails_bind {x : Except ε α} {f : α → Except ε β} :
    Fails (x >>= f) ↔ Fails x ∨ ∃ a, x = .ok a ∧ Fails (f a) := by
  cases x <;> simp [Fails, bind, Except.bind]

theorem fails_bind_ok {x : Except ε α} {g : α → β} :
    Fails (x >>= fun a => .ok (g a)) ↔ Fails x := by
  cases x <;> simp [Fails, bind, Except.bind]

theorem fails_mapError {ε' : Type} {x : Except ε α} {f : ε → ε'} :
    Fails (x.mapError f) ↔ Fails x := by
  cases x <;> simp [Fails, Except.mapError]

/-- A traversal fails exactly when one of its steps fails on its own. -/
theorem fails_mapM {f : α → Except ε β} {as : List α} :
    Fails (as.mapM f) ↔ ∃ a ∈ as, Fails (f a) := by
  constructor
  · rintro ⟨d, h⟩
    obtain ⟨a, member, ha⟩ := exists_of_mapM_eq_error h
    exact ⟨a, member, d, ha⟩
  · rintro ⟨a, member, d, ha⟩
    cases h : as.mapM f with
    | error d => exact ⟨d, rfl⟩
    | ok bs =>
      obtain ⟨b, _, hb⟩ := exists_of_forall₂ (mapM_eq_ok.mp h) member
      cases ha.symm.trans hb

theorem fails_forM {f : α → Except ε Unit} {as : List α} :
    Fails (as.forM f) ↔ ∃ a ∈ as, Fails (f a) := by
  induction as with
  | nil => simp [Fails, pure, Except.pure]
  | cons a as ih =>
    change Fails (f a >>= fun _ => as.forM f) ↔ _
    rw [fails_bind, ih, List.exists_mem_cons_iff]
    cases f a <;> simp [Fails]

/-- The first element of a list with a property. -/
def IsFirst (P : α → Prop) (as : List α) (a : α) : Prop :=
  ∃ before after, as = before ++ a :: after ∧ P a ∧ ∀ b ∈ before, ¬ P b

namespace IsFirst

variable {P : α → Prop} {as bs : List α} {a : α}

theorem head (holds : P a) : IsFirst P (a :: as) a :=
  ⟨[], as, rfl, holds, List.forall_mem_nil _⟩

theorem append_right (first : IsFirst P as a) (bs : List α) : IsFirst P (as ++ bs) a := by
  obtain ⟨before, after, rfl, holds, none⟩ := first
  exact ⟨before, after ++ bs, by simp, holds, none⟩

theorem append_left (none : ∀ b ∈ bs, ¬ P b) (first : IsFirst P as a) :
    IsFirst P (bs ++ as) a := by
  obtain ⟨before, after, rfl, holds, none'⟩ := first
  exact ⟨bs ++ before, after, by simp, holds, List.forall_mem_append.mpr ⟨none, none'⟩⟩

theorem cons {b : α} (fails : ¬ P b) (first : IsFirst P as a) : IsFirst P (b :: as) a :=
  append_left (List.forall_mem_singleton.mpr fails) first

end IsFirst

/-- A traversal fails by what the first of its steps that fails on its own fails by. -/
theorem mapM_eq_error {f : α → Except ε β} {as : List α} {d : ε} :
    as.mapM f = .error d ↔ ∃ a, IsFirst (fun a => Fails (f a)) as a ∧ f a = .error d := by
  induction as with
  | nil =>
    constructor
    · intro h
      cases h
    · rintro ⟨a, ⟨before, after, split, -⟩, -⟩
      simp at split
  | cons a as ih =>
    rw [mapM_cons_eq_error]
    constructor
    · rintro (failed | ⟨b, done, failed⟩)
      · exact ⟨a, .head ⟨d, failed⟩, failed⟩
      · obtain ⟨a', first, failed⟩ := ih.mp failed
        exact ⟨a', first.cons (fails_iff_not_ok.not_left.mpr ⟨b, done⟩), failed⟩
    · rintro ⟨a', ⟨before, after, split, fails, none⟩, failed⟩
      cases before with
      | nil =>
        obtain ⟨rfl, -⟩ := List.cons.inj split
        exact .inl failed
      | cons a₀ before =>
        obtain ⟨rfl, rfl⟩ := List.cons.inj split
        obtain ⟨goes, none⟩ := List.forall_mem_cons.mp none
        obtain ⟨b, done⟩ := (ok_or_fails (f a)).resolve_right goes
        exact .inr ⟨b, done, ih.mpr ⟨a', ⟨before, after, rfl, fails, none⟩, failed⟩⟩

end SwiftCodec
