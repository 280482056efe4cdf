import SwiftCodec.Proofs.Registry.Scan
import Mathlib.Data.List.Sort

/-!
What a registry records of the files it has observed, and nothing else: of extensions the codecs
they provide, as sets in increasing order, and of aliases and enums the last declaration of each
name, in the order in which the names first appear. Each step of observing adds one file to the
record, so that a whole run records them all; observing the last file again changes nothing.
-/
namespace SwiftCodec

namespace NameSet

def Increasing (s : NameSet) : Prop := s.names.Pairwise (· < ·)

/-- A set has the names with a property, in increasing order. -/
structure Lists (s : NameSet) (P : String → Prop) : Prop where
  mem : ∀ name, s.contains name ↔ P name
  increasing : s.Increasing

variable {s t : NameSet} {name : String}

theorem increasing_insertInto {names : List String} (sorted : names.Pairwise (· < ·)) :
    (insertInto name names).Pairwise (· < ·) := by
  induction names with
  | nil => exact List.pairwise_singleton _ _
  | cons n ns ih =>
    obtain ⟨least, rest⟩ := List.pairwise_cons.mp sorted
    unfold insertInto
    split
    · rename_i before
      refine List.pairwise_cons.mpr ⟨?_, sorted⟩
      intro m member
      rcases List.mem_cons.mp member with rfl | member
      · exact before
      · exact String.lt_trans before (least m member)
    · rename_i notBefore
      split
      · exact sorted
      · rename_i other
        refine List.pairwise_cons.mpr ⟨?_, ih rest⟩
        intro m member
        rcases mem_insertInto.mp member with rfl | member
        · exact Std.lt_of_le_of_ne (String.not_lt.mp notBefore) (Ne.symm other)
        · exact least m member

theorem Increasing.insert (sorted : s.Increasing) (name : String) : (s.insert name).Increasing :=
  increasing_insertInto sorted

/-- In increasing order, sets with the same names are the same. -/
theorem Increasing.ext (sorted : s.Increasing) (sorted' : t.Increasing)
    (same : ∀ name, s.contains name ↔ t.contains name) : s = t := by
  have names : s.names = t.names :=
    List.Pairwise.eq_of_mem_iff sorted sorted' fun name => by simpa [contains] using same name
  cases s
  cases t
  exact congrArg mk names

end NameSet

namespace NameMap

variable {α : Type} {m m' : NameMap α}

/-- A map has each name that is declared, at the place of its first declaration and with the value
of its last. -/
structure Records (m : NameMap α) (declared : List (String × α)) : Prop where
  mem : ∀ name, name ∈ m.keys ↔ name ∈ declared.map Prod.fst
  order : m.keys.Pairwise fun a b =>
    (declared.map Prod.fst).idxOf a < (declared.map Prod.fst).idxOf b
  last : ∀ e ∈ m.entries,
    ∃ before after, declared = before ++ e :: after ∧ e.1 ∉ after.map Prod.fst

theorem records_empty : ({} : NameMap α).Records [] where
  mem _ := Iff.rfl
  order := .nil
  last := List.forall_mem_nil _

namespace Records

variable {declared : List (String × α)} {name : String} {value : α}

theorem nodup (records : m.Records declared) : m.keys.Nodup := by
  apply records.order.imp
  rintro a _ less rfl
  exact Nat.lt_irrefl _ less

theorem order_insert (records : m.Records declared) :
    (m.insert name value).keys.Pairwise fun a b =>
      ((declared ++ [(name, value)]).map Prod.fst).idxOf a <
        ((declared ++ [(name, value)]).map Prod.fst).idxOf b := by
  have place {a : String} (known : a ∈ m.keys) :
      ((declared ++ [(name, value)]).map Prod.fst).idxOf a = (declared.map Prod.fst).idxOf a := by
    rw [List.map_append, List.idxOf_append_of_mem ((records.mem a).mp known)]
  have before : m.keys.Pairwise fun a b =>
      ((declared ++ [(name, value)]).map Prod.fst).idxOf a <
        ((declared ++ [(name, value)]).map Prod.fst).idxOf b := by
    refine records.order.imp_of_mem fun known known' less => ?_
    rwa [place known, place known']
  rw [keys_insert]
  split
  · exact before
  · -- A name that is new to the map has not been declared either: it is first found at the end.
    rename_i fresh
    refine List.pairwise_append.mpr ⟨before, List.pairwise_singleton _ _, ?_⟩
    intro a known b last
    obtain rfl := List.mem_singleton.mp last
    have new : b ∉ declared.map Prod.fst := fun old => fresh ((records.mem b).mpr old)
    rw [place known, List.map_append, List.idxOf_append_of_notMem new]
    have inside := List.idxOf_lt_length_of_mem ((records.mem a).mp known)
    omega

theorem last_insert (records : m.Records declared) :
    ∀ e ∈ (m.insert name value).entries, ∃ before after,
      declared ++ [(name, value)] = before ++ e :: after ∧ e.1 ∉ after.map Prod.fst := by
  intro e member
  have found : (m.insert name value).find? e.1 = some e.2 :=
    (lookup_eq_some_iff (nodup_keys_insert records.nodup)).mpr member
  rw [find?_insert] at found
  split at found
  · rename_i same
    obtain rfl : value = e.2 := Option.some.inj found
    subst same
    exact ⟨declared, [], rfl, List.not_mem_nil⟩
  · rename_i other
    have earlier : e ∈ m.entries := (lookup_eq_some_iff records.nodup).mp found
    obtain ⟨before, after, rfl, last⟩ := records.last e earlier
    refine ⟨before, after ++ [(name, value)], by simp, ?_⟩
    simpa [other] using last

theorem insert (records : m.Records declared) (name : String) (value : α) :
    (m.insert name value).Records (declared ++ [(name, value)]) where
  mem n := by
    rw [keys_insert, List.map_append, List.mem_append, ← records.mem]
    split
    · rename_i known
      refine (or_iff_left_of_imp fun last => ?_).symm
      rwa [List.mem_singleton.mp last]
    · exact List.mem_append
  order := records.order_insert
  last := records.last_insert

theorem foldl_insert (records : m.Records declared) (more : List (String × α)) :
    (more.foldl (fun m e => m.insert e.1 e.2) m).Records (declared ++ more) := by
  induction more generalizing m declared with
  | nil => simpa using records
  | cons e more ih =>
    have step := ih (records.insert e.1 e.2)
    rwa [List.append_assoc, List.singleton_append] at step

end Records

/-! ## Inserting once more -/

theorem find?_of_notMem {name : String} (absent : name ∉ m.keys) : m.find? name = none := by
  cases found : m.find? name with
  | none => rfl
  | some _ => exact absurd (mem_keys_of_find? found) absent

theorem ext_find? (keys : m.keys = m'.keys) (distinct : m.keys.Nodup)
    (same : ∀ name, m.find? name = m'.find? name) : m = m' := by
  obtain ⟨entries⟩ := m
  obtain ⟨entries'⟩ := m'
  congr 1
  unfold NameMap.keys at keys distinct
  unfold find? at same
  dsimp only at keys distinct same
  induction entries generalizing entries' with
  | nil => simpa using keys.symm
  | cons e entries ih =>
    cases entries' with
    | nil => cases keys
    | cons e' entries' =>
      obtain ⟨name, rest⟩ := List.cons.inj keys
      obtain ⟨absent, distinct⟩ := List.nodup_cons.mp distinct
      have head : e = e' := by
        have values := same e.1
        rw [lookup_entry, lookup_entry, if_pos rfl, if_pos name] at values
        exact Prod.ext name (Option.some.inj values)
      subst head
      congr 1
      refine ih distinct entries' rest fun n => ?_
      have values := same n
      rw [lookup_entry, lookup_entry] at values
      split at values
      · rename_i here
        subst here
        have unknown := find?_of_notMem (m := ⟨entries⟩) absent
        have unknown' := find?_of_notMem (m := ⟨entries'⟩) (rest ▸ absent)
        exact unknown.trans unknown'.symm
      · exact values

theorem keys_foldl_insert_known {more : List (String × α)} (known : ∀ e ∈ more, e.1 ∈ m.keys) :
    (more.foldl (fun m e => m.insert e.1 e.2) m).keys = m.keys := by
  induction more generalizing m with
  | nil => rfl
  | cons e more ih =>
    obtain ⟨head, tail⟩ := List.forall_mem_cons.mp known
    have same : (m.insert e.1 e.2).keys = m.keys := by rw [keys_insert, if_pos head]
    rw [List.foldl_cons, ih (same ▸ tail), same]

/-- Declarations that have just been entered make no difference when they are entered again. -/
theorem Records.foldl_insert_again {declared : List (String × α)} (records : m.Records declared)
    (more : List (String × α)) :
    more.foldl (fun m e => m.insert e.1 e.2) (more.foldl (fun m e => m.insert e.1 e.2) m) =
      more.foldl (fun m e => m.insert e.1 e.2) m := by
  have once := records.foldl_insert more
  have known : ∀ e ∈ more, e.1 ∈ (more.foldl (fun m e => m.insert e.1 e.2) m).keys := by
    intro e member
    rw [once.mem, List.map_append, List.mem_append]
    exact .inr (List.mem_map_of_mem member)
  have keys := keys_foldl_insert_known known
  refine ext_find? keys (keys ▸ once.nodup) fun name => ?_
  rw [find?_foldl_insert, find?_foldl_insert]
  cases (more.reverse.find? (·.1 = name)).map Prod.snd <;> rfl

end NameMap

namespace Codecs

-- One of the two sets of types, and the function that puts a type into it.
variable (types : Codecs → NameSet) {function : String}
  (step : ∀ c x, types (observe c x) =
    if x.functions.contains function then (types c).insert x.name else types c)

include step

theorem lists_foldl_observe {P : String → Prop} {c : Codecs} (lists : (types c).Lists P)
    (xs : List ExtensionDecl) :
    (types (xs.foldl observe c)).Lists fun name =>
      P name ∨ ∃ x ∈ xs, x.name = name ∧ function ∈ x.functions where
  mem name := by rw [contains_foldl_observe types step, lists.mem]
  increasing := by
    have sorted := lists.increasing
    clear lists
    induction xs generalizing c with
    | nil => exact sorted
    | cons x xs ih =>
      apply ih
      rw [step]
      split
      · exact sorted.insert x.name
      · exact sorted

theorem foldl_observe_again {P : String → Prop} {c : Codecs} (lists : (types c).Lists P)
    (xs : List ExtensionDecl) :
    types (xs.foldl observe (xs.foldl observe c)) = types (xs.foldl observe c) := by
  have once := lists_foldl_observe types step lists xs
  have twice := lists_foldl_observe types step once xs
  apply twice.increasing.ext once.increasing
  intro name
  rw [twice.mem, once.mem, or_assoc, or_self]

end Codecs

namespace Registry

variable {r : Registry} {files : List SourceFile}

/-- A registry has what the files declare, and nothing else. -/
structure Records (r : Registry) (files : List SourceFile) : Prop where
  decoders : r.codecs.decoders.Lists (Provides files · decodeName)
  encoders : r.codecs.encoders.Lists (Provides files · encodeName)
  aliases : r.aliases.Records
    (files.flatMap fun f => f.flatten.aliases.map fun a => (a.name, a.target))
  enums : r.enums.Records
    (files.flatMap fun f => f.flatten.enums.map fun e => (e.name, e.rawType))

theorem records_empty : Records {} [] where
  decoders := ⟨by simp [NameSet.contains, provides_iff_mem], .nil⟩
  encoders := ⟨by simp [NameSet.contains, provides_iff_mem], .nil⟩
  aliases := NameMap.records_empty
  enums := NameMap.records_empty

theorem provides_concat {file : SourceFile} {name function : String} :
    Provides (files ++ [file]) name function ↔
      Provides files name function ∨
        ∃ x ∈ file.flatten.extensions, x.name = name ∧ function ∈ x.functions := by
  simp only [provides_iff_mem, List.flatMap_append, List.flatMap_singleton, List.mem_append,
    or_and_right, exists_or]

namespace Records

theorem observe (records : r.Records files) (file : SourceFile) :
    (r.observe file).Records (files ++ [file]) where
  decoders := by
    simp only [provides_concat]
    exact Codecs.lists_foldl_observe Codecs.decoders (fun _ _ => rfl) records.decoders _
  encoders := by
    simp only [provides_concat]
    exact Codecs.lists_foldl_observe Codecs.encoders (fun _ _ => rfl) records.encoders _
  aliases := by
    have step := records.aliases.foldl_insert (file.flatten.aliases.map fun a => (a.name, a.target))
    rw [List.foldl_map] at step
    rwa [List.flatMap_append, List.flatMap_singleton]
  enums := by
    have step := records.enums.foldl_insert (file.flatten.enums.map fun e => (e.name, e.rawType))
    rw [List.foldl_map] at step
    rwa [List.flatMap_append, List.flatMap_singleton]

theorem foldl_observe (records : r.Records files) (more : List SourceFile) :
    (more.foldl Registry.observe r).Records (files ++ more) := by
  induction more generalizing r files with
  | nil => rwa [List.append_nil]
  | cons file more ih =>
    have step := ih (records.observe file)
    rwa [List.append_assoc, List.singleton_append] at step

theorem observe_again (records : r.Records files) (file : SourceFile) :
    (r.observe file).observe file = r.observe file := by
  have decoders := Codecs.foldl_observe_again Codecs.decoders (fun _ _ => rfl) records.decoders
    file.flatten.extensions
  have encoders := Codecs.foldl_observe_again Codecs.encoders (fun _ _ => rfl) records.encoders
    file.flatten.extensions
  have aliases := records.aliases.foldl_insert_again
    (file.flatten.aliases.map fun a => (a.name, a.target))
  have enums := records.enums.foldl_insert_again
    (file.flatten.enums.map fun e => (e.name, e.rawType))
  simp only [List.foldl_map] at aliases enums
  unfold Registry.observe
  dsimp only
  rw [aliases, enums]
  congr 1
  generalize file.flatten.extensions.foldl Codecs.observe
    (file.flatten.extensions.foldl Codecs.observe r.codecs) = twice at decoders encoders ⊢
  cases twice
  cases decoders
  cases encoders
  rfl

end Records

end Registry

/-- Observing files from an empty registry records all of them: the types for which an extension at
any depth lists one of the functions, and the aliases and enums by qualified name, each at the place
of its first declaration and with what its last one says. The last file observed again is recorded
already. -/
theorem observing_records_files (files : List SourceFile) :
    let r := files.foldl Registry.observe {}
    r.codecs.decoders.Lists (Provides files · "decodeJson") ∧
    r.codecs.encoders.Lists (Provides files · "encodeJson") ∧
    r.aliases.Records
      (files.flatMap fun f => f.flatten.aliases.map fun a => (a.name, a.target)) ∧
    r.enums.Records
      (files.flatMap fun f => f.flatten.enums.map fun e => (e.name, e.rawType)) ∧
    ∀ file, (r.observe file).observe file = r.observe file := by
  intro r
  have records : r.Records files := Registry.records_empty.foldl_observe files
  exact ⟨records.decoders, records.encoders, records.aliases, records.enums, records.observe_again⟩

end SwiftCodec
