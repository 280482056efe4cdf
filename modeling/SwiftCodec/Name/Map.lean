/-!
Finite sets and maps over names. A set is a list in increasing order without repetitions; a map
keeps the order in which its names were first given, and a later value takes the place of an
earlier one.
-/
namespace SwiftCodec

structure NameSet where
  names : List String := []
deriving DecidableEq, Repr, Inhabited

namespace NameSet

def contains (s : NameSet) (name : String) : Bool := s.names.contains name

def insertInto (name : String) : List String → List String
  | [] => [name]
  | n :: ns =>
    if name < n then name :: n :: ns
    else if name = n then n :: ns
    else n :: insertInto name ns

theorem mem_insertInto {name n : String} {ns : List String} :
    n ∈ insertInto name ns ↔ n = name ∨ n ∈ ns := by
  induction ns with
  | nil => simp [insertInto]
  | cons m ns ih =>
    unfold insertInto
    split
    · simp
    · split
      · rename_i same
        simp [same]
      · simp only [List.mem_cons, ih]
        exact or_left_comm

def insert (s : NameSet) (name : String) : NameSet := ⟨insertInto name s.names⟩

theorem contains_insert {s : NameSet} {name n : String} :
    (s.insert name).contains n ↔ n = name ∨ s.contains n := by
  simp [contains, insert, mem_insertInto]

def ofList (names : List String) : NameSet := names.foldl insert ⟨[]⟩

end NameSet

structure NameMap (α : Type) where
  entries : List (String × α) := []
deriving Repr, Inhabited

namespace NameMap

variable {α : Type}

def find? (m : NameMap α) (name : String) : Option α := m.entries.lookup name

def keys (m : NameMap α) : List String := m.entries.map Prod.fst

theorem mem_keys_of_find? {m : NameMap α} {name : String} {value : α}
    (h : m.find? name = some value) : name ∈ m.keys := by
  unfold find? at h
  unfold keys
  generalize m.entries = es at h
  induction es with
  | nil => contradiction
  | cons e es ih =>
    by_cases same : name = e.1
    · simp [same]
    · rw [List.lookup_cons, beq_false_of_ne same] at h
      exact List.mem_cons_of_mem _ (ih h)

def insertInto (name : String) (value : α) : List (String × α) → List (String × α)
  | [] => [(name, value)]
  | (n, v) :: rest =>
    if n = name then (n, value) :: rest else (n, v) :: insertInto name value rest

theorem lookup_entry {n : String} {e : String × α} {entries : List (String × α)} :
    (e :: entries).lookup n = if n = e.1 then some e.2 else entries.lookup n := by
  by_cases same : n = e.1
  · rw [List.lookup_cons, if_pos same, beq_iff_eq.mpr same]
  · rw [List.lookup_cons, if_neg same, beq_false_of_ne same]

theorem lookup_insertInto {name n : String} {value : α} {entries : List (String × α)} :
    (insertInto name value entries).lookup n =
      if n = name then some value else entries.lookup n := by
  induction entries with
  | nil => simp [insertInto, lookup_entry]
  | cons e entries ih =>
    unfold insertInto
    split
    · rename_i here
      by_cases same : n = name <;> simp [lookup_entry, same, here]
    · rename_i elsewhere
      rw [lookup_entry, lookup_entry, ih]
      by_cases same : n = e.1
      · simp [same, elsewhere]
      · simp [same]

/-- If each name has one entry, looking a name up and having an entry are the same. -/
theorem lookup_eq_some_iff {entries : List (String × α)} (distinct : (entries.map Prod.fst).Nodup)
    {n : String} {value : α} : entries.lookup n = some value ↔ (n, value) ∈ entries := by
  induction entries with
  | nil => simp
  | cons e entries ih =>
    obtain ⟨absent, distinct⟩ := List.nodup_cons.mp distinct
    rw [lookup_entry, List.mem_cons]
    by_cases same : n = e.1
    · have other : (n, value) ∉ entries := fun member =>
        absent (List.mem_map.mpr ⟨_, member, same⟩)
      simp [same, Prod.ext_iff, eq_comm, same ▸ other]
    · simp [same, ih distinct, Prod.ext_iff]

theorem keys_insertInto {name : String} {value : α} {entries : List (String × α)} :
    (insertInto name value entries).map Prod.fst =
      if name ∈ entries.map Prod.fst then entries.map Prod.fst
      else entries.map Prod.fst ++ [name] := by
  induction entries with
  | nil => simp [insertInto]
  | cons e entries ih =>
    unfold insertInto
    split
    · rename_i here
      simp [here]
    · rename_i elsewhere
      simp only [List.map_cons, ih, List.mem_cons, Ne.symm elsewhere, false_or]
      split <;> rfl

theorem insertInto_fresh {name : String} {value : α} {entries : List (String × α)}
    (fresh : name ∉ entries.map Prod.fst) :
    insertInto name value entries = entries ++ [(name, value)] := by
  induction entries with
  | nil => rfl
  | cons e entries ih =>
    rw [List.map_cons, List.mem_cons, not_or] at fresh
    rw [insertInto, if_neg (Ne.symm fresh.1), ih fresh.2, List.cons_append]

def insert (m : NameMap α) (name : String) (value : α) : NameMap α :=
  ⟨insertInto name value m.entries⟩

theorem find?_insert {m : NameMap α} {name n : String} {value : α} :
    (m.insert name value).find? n = if n = name then some value else m.find? n := lookup_insertInto

theorem keys_insert {m : NameMap α} {name : String} {value : α} :
    (m.insert name value).keys = if name ∈ m.keys then m.keys else m.keys ++ [name] :=
  keys_insertInto

theorem nodup_keys_insert {m : NameMap α} {name : String} {value : α} (distinct : m.keys.Nodup) :
    (m.insert name value).keys.Nodup := by
  rw [keys_insert]
  split
  · exact distinct
  · rename_i fresh
    exact List.nodup_append.mpr ⟨distinct, by simp, by
      rintro a known _ last rfl
      exact fresh (List.mem_singleton.mp last ▸ known)⟩

end NameMap

end SwiftCodec
