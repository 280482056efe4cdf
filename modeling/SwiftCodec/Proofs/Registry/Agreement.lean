import SwiftCodec.Proofs.Registry.KnownEnums
import SwiftCodec.Proofs.Resolution.Lookup

/-!
Registries that answer every question alike. Scanning files in another order gives such a registry
if no two files declare an alias, or an enum, of one name: of the declarations of a name the last
counts, and then they are all in one file.
-/
namespace SwiftCodec

theorem find?_last_perm {α β : Type} {p : β → Bool} {inside : α → List β} {as as' : List α}
    (permuted : as.Perm as')
    (apart : ∀ a ∈ as, ∀ b ∈ as, (∃ x ∈ inside a, p x) → (∃ y ∈ inside b, p y) → a = b) :
    (as.flatMap inside).reverse.find? p = (as'.flatMap inside).reverse.find? p := by
  induction permuted with
  | nil => rfl
  | cons a _ ih =>
    have rest := ih fun b hb c hc =>
      apart b (List.mem_cons_of_mem _ hb) c (List.mem_cons_of_mem _ hc)
    rw [List.flatMap_cons, List.flatMap_cons, List.reverse_append, List.reverse_append,
      List.find?_append, List.find?_append, rest]
  | swap a b rest =>
    -- If both have what is looked for they are the same, so it does not matter which comes last.
    have either : ((inside a).reverse.find? p).or ((inside b).reverse.find? p) =
        ((inside b).reverse.find? p).or ((inside a).reverse.find? p) := by
      cases first : (inside a).reverse.find? p with
      | none => rw [Option.none_or, Option.or_none]
      | some x =>
        cases last : (inside b).reverse.find? p with
        | none => rfl
        | some y =>
          have declared : ∃ x ∈ inside a, p x :=
            ⟨x, List.mem_reverse.mp (List.mem_of_find?_eq_some first), List.find?_some first⟩
          have declared' : ∃ y ∈ inside b, p y :=
            ⟨y, List.mem_reverse.mp (List.mem_of_find?_eq_some last), List.find?_some last⟩
          obtain rfl := apart a (by simp) b (by simp) declared declared'
          rw [← first, last]
    simp only [List.flatMap_cons, List.reverse_append, List.find?_append, Option.or_assoc, either]
  | trans first _ ih ih' =>
    exact (ih apart).trans
      (ih' fun a ha b hb => apart a (first.mem_iff.mpr ha) b (first.mem_iff.mpr hb))

namespace Registry

structure Agree (r r' : Registry) : Prop where
  decoders : ∀ name, r.codecs.hasDecoder name = r'.codecs.hasDecoder name
  encoders : ∀ name, r.codecs.hasEncoder name = r'.codecs.hasEncoder name
  aliases : ∀ name, r.aliases.find? name = r'.aliases.find? name
  enums : ∀ name, r.enums.find? name = r'.enums.find? name

/-- No two of the files have a declaration of one name; a file may be listed twice. -/
def Apart {δ : Type} (files : List SourceFile) (declared : SourceFile → List δ)
    (name : δ → String) : Prop :=
  ∀ a ∈ files, ∀ b ∈ files, ∀ x ∈ declared a, ∀ y ∈ declared b, name x = name y → a = b

variable {files files' : List SourceFile}

theorem find?_apart {δ : Type} {declared : SourceFile → List δ} {key : δ → String}
    (permuted : files.Perm files') (apart : Apart files declared key) (name : String) :
    (files.flatMap declared).reverse.find? (key · = name) =
      (files'.flatMap declared).reverse.find? (key · = name) := by
  refine find?_last_perm permuted fun a ha b hb => ?_
  rintro ⟨x, hx, named⟩ ⟨y, hy, named'⟩
  exact apart a ha b hb x hx y hy ((of_decide_eq_true named).trans (of_decide_eq_true named').symm)

theorem provides_perm (permuted : files.Perm files') (name function : String) :
    Provides files name function ↔ Provides files' name function := by
  simp only [Provides, permuted.mem_iff]

theorem scan_agree (permuted : files.Perm files')
    (aliases : Apart files (·.flatten.aliases) (·.name))
    (enums : Apart files (·.flatten.enums) (·.name)) : (scan files).Agree (scan files') where
  decoders name := by
    rw [Bool.eq_iff_iff, hasDecoder_scan, hasDecoder_scan, provides_perm permuted]
  encoders name := by
    rw [Bool.eq_iff_iff, hasEncoder_scan, hasEncoder_scan, provides_perm permuted]
  aliases name := by
    rw [find?_aliases_scan, find?_aliases_scan, find?_apart permuted aliases]
  enums name := by
    rw [find?_enums_scan, find?_enums_scan, find?_apart permuted enums]

theorem nodup_enums_scan (files : List SourceFile) : (scan files).enums.keys.Nodup := by
  rw [scan, foldl_observe]
  exact NameMap.nodup_keys_foldl_insert _ _ List.nodup_nil

namespace Agree

variable {r r' : Registry} {here : List EnumDecl}

theorem target?_eq (agree : r.Agree r') (name : String) :
    r.aliases.target? name = r'.aliases.target? name :=
  Aliases.target?_congr fun _ => agree.aliases name

theorem resolveStruct_eq (agree : r.Agree r') : r.resolveStruct = r'.resolveStruct :=
  funext fun _ => resolveStruct_congr fun _ _ name _ => agree.target?_eq name

theorem resolveEnum_eq (agree : r.Agree r') : r.resolveEnum = r'.resolveEnum :=
  funext fun _ => resolveEnum_congr fun name _ => agree.target?_eq name

theorem rawType?_eq (agree : r.Agree r') (name : String) :
    r.rawType? here name = r'.rawType? here name := by
  rw [rawType?, rawType?, agree.enums]

/-- The enums a key may name are resolved one by one, so their order has no part in whether all of
them are. -/
theorem knownEnums_fails_iff (agree : r.Agree r') (distinct : r.enums.keys.Nodup)
    (distinct' : r'.enums.keys.Nodup) (here : List EnumDecl) :
    Fails (r.knownEnums here) ↔ Fails (r'.knownEnums here) := by
  have members : ∀ e, e ∈ r.candidates here ↔ e ∈ r'.candidates here := by
    intro e
    rw [mem_candidates distinct, mem_candidates distinct', agree.enums]
  simp only [knownEnums_eq, fails_mapM, agree.resolveEnum_eq, members]

theorem find?_known_eq (agree : r.Agree r') {known known' : List EnumDecl}
    (resolved : r.knownEnums here = .ok known) (resolved' : r'.knownEnums here = .ok known')
    (name : String) : known.find? (·.name = name) = known'.find? (·.name = name) := by
  have found : Option.Rel (fun e e' => r.resolveEnum e = .ok e')
      ((r.candidates here).find? (·.name = name)) (known.find? (·.name = name)) :=
    find?_resolved (mapM_eq_ok.mp resolved)
  have found' : Option.Rel (fun e e' => r'.resolveEnum e = .ok e')
      ((r'.candidates here).find? (·.name = name)) (known'.find? (·.name = name)) :=
    find?_resolved (mapM_eq_ok.mp resolved')
  rw [find?_candidates_eq, agree.rawType?_eq, agree.resolveEnum_eq, ← find?_candidates_eq] at found
  generalize (r'.candidates here).find? (·.name = name) = e? at found found'
  generalize known.find? (·.name = name) = k? at found ⊢
  generalize known'.find? (·.name = name) = k'? at found' ⊢
  cases found with
  | none => cases found'; rfl
  | some head =>
    cases found' with
    | some head' =>
      cases head.symm.trans head'
      rfl

end Agree

end Registry

end SwiftCodec
