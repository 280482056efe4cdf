import SwiftCodec.Proofs.Registry.Scan
import SwiftCodec.Proofs.Resolution.Meaning

/-!
The enums a dictionary key may name, looked up by their names: the declaration at hand comes before
the one recorded, and its raw type stands for what it means.
-/
namespace SwiftCodec.Registry

variable {r : Registry} {here : List EnumDecl} {name : String}

/-- The raw type of an enum as written: that of the file at hand, or else the one recorded. -/
def rawType? (r : Registry) (here : List EnumDecl) (name : String) : Option String :=
  ((here.find? (·.name = name)).map (·.rawType)).or (r.enums.find? name)

/-- An enum that is recorded, but not under the name of one at hand. -/
def undeclared (here : List EnumDecl) (e : String × String) : Bool := ! here.any (·.name = e.1)

/-- The enums that are resolved, before they are. -/
def candidates (r : Registry) (here : List EnumDecl) : List EnumDecl :=
  here ++ (r.enums.entries.filter (undeclared here)).map fun e => ⟨e.1, e.2⟩

theorem knownEnums_eq (r : Registry) (here : List EnumDecl) :
    r.knownEnums here = (r.candidates here).mapM r.resolveEnum := rfl

theorem undeclared_iff {e : String × String} : undeclared here e ↔ ∀ h ∈ here, h.name ≠ e.1 := by
  simp [undeclared]

theorem find?_elsewhere (entries : List (String × String))
    (absent : here.find? (·.name = name) = none) :
    (((entries.filter (undeclared here)).map fun e => EnumDecl.mk e.1 e.2).find?
      (·.name = name)).map (·.rawType) = entries.lookup name := by
  induction entries with
  | nil => rfl
  | cons e entries ih =>
    rw [NameMap.lookup_entry]
    by_cases same : name = e.1
    · have kept : undeclared here e :=
        undeclared_iff.mpr fun h member named => by
          simpa [named, same] using List.find?_eq_none.mp absent h member
      rw [List.filter_cons_of_pos kept, if_pos same]
      simp [same]
    · rw [if_neg same, ← ih]
      by_cases kept : undeclared here e
      · rw [List.filter_cons_of_pos kept, List.map_cons,
          List.find?_cons_of_neg (by simpa using Ne.symm same)]
      · rw [List.filter_cons_of_neg kept]

theorem find?_candidates :
    ((r.candidates here).find? (·.name = name)).map (·.rawType) = r.rawType? here name := by
  rw [candidates, List.find?_append, Option.map_or, rawType?]
  cases found : here.find? (·.name = name) with
  | some e => rfl
  | none => exact find?_elsewhere r.enums.entries found

theorem find?_candidates_eq :
    (r.candidates here).find? (·.name = name) =
      (r.rawType? here name).map (EnumDecl.mk name) := by
  rw [← find?_candidates]
  cases found : (r.candidates here).find? (·.name = name) with
  | none => rfl
  | some e =>
    obtain rfl : e.name = name := by simpa using List.find?_some found
    rfl

/-- If each name is recorded once, a candidate is an enum of the file at hand or one recorded under
a name that the file does not declare. -/
theorem mem_candidates (distinct : r.enums.keys.Nodup) {e : EnumDecl} :
    e ∈ r.candidates here ↔
      e ∈ here ∨ (∀ h ∈ here, h.name ≠ e.name) ∧ r.enums.find? e.name = some e.rawType := by
  rw [NameMap.find?, NameMap.lookup_eq_some_iff distinct, candidates, List.mem_append]
  refine or_congr_right ?_
  constructor
  · intro member
    obtain ⟨entry, kept, rfl⟩ := List.mem_map.mp member
    obtain ⟨recorded, absent⟩ := List.mem_filter.mp kept
    exact ⟨undeclared_iff.mp absent, recorded⟩
  · rintro ⟨absent, recorded⟩
    exact List.mem_map.mpr
      ⟨_, List.mem_filter.mpr ⟨recorded, undeclared_iff.mpr absent⟩, rfl⟩

theorem name_of_resolveEnum {e e' : EnumDecl} (resolved : r.resolveEnum e = .ok e') :
    e'.name = e.name := by
  obtain ⟨u, _, h⟩ := bind_eq_ok.mp resolved
  cases h
  rfl

theorem means_of_resolveEnum {e e' : EnumDecl} (resolved : r.resolveEnum e = .ok e') :
    r.aliases.Means e.rawType e'.rawType := by
  obtain ⟨u, hu, h⟩ := bind_eq_ok.mp resolved
  cases h
  exact Aliases.means_of_resolve hu

theorem find?_resolved {es es' : List EnumDecl}
    (resolved : List.Forall₂ (fun e e' => r.resolveEnum e = .ok e') es es') :
    Option.Rel (fun e e' => r.resolveEnum e = .ok e') (es.find? (·.name = name))
      (es'.find? (·.name = name)) := by
  induction resolved with
  | nil => exact .none
  | @cons e e' es es' head _ ih =>
    have same := name_of_resolveEnum head
    by_cases named : e.name = name
    · rw [List.find?_cons_of_pos (by simpa using named),
        List.find?_cons_of_pos (by simpa [same] using named)]
      exact .some head
    · rw [List.find?_cons_of_neg (by simpa using named),
        List.find?_cons_of_neg (by simpa [same] using named)]
      exact ih

/-- A known enum has the raw type that its declaration means, and a name is unknown only if there is
no declaration of it. -/
theorem find?_knownEnums {known : List EnumDecl} (resolved : r.knownEnums here = .ok known) :
    Option.Rel (fun raw e => r.aliases.Means raw e.rawType) (r.rawType? here name)
      (known.find? (·.name = name)) := by
  have found : Option.Rel (fun e e' => r.resolveEnum e = .ok e')
      ((r.rawType? here name).map (EnumDecl.mk name)) (known.find? (·.name = name)) := by
    rw [← find?_candidates_eq]
    exact find?_resolved (mapM_eq_ok.mp resolved)
  generalize r.rawType? here name = raw? at found ⊢
  generalize known.find? (·.name = name) = e? at found ⊢
  cases raw? with
  | none => cases found; exact .none
  | some raw =>
    cases found with
    | some head => exact .some (means_of_resolveEnum head)

end SwiftCodec.Registry
