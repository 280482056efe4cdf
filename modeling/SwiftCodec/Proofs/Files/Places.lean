import Mathlib.Data.List.Basic
import SwiftCodec.Files.Tree

/-!
Places. As long as every directory on the way is there, where a path leads does not depend on the
tree; so a text written to a path stays there until something is written to a path of the same
place.
-/
namespace SwiftCodec

namespace Path

/-- Text without a slash goes to the last part. -/
theorem splitOn_append {back : List Char} (plain : '/' ∉ back) (front : List Char) :
    ∃ before last, front.splitOn '/' = before ++ [last] ∧
      (front ++ back).splitOn '/' = before ++ [last ++ back] := by
  induction front with
  | nil => exact ⟨[], [], rfl, List.splitOn_eq_singleton plain⟩
  | cons c front ih =>
    obtain ⟨before, last, alone, both⟩ := ih
    rw [List.cons_append, List.splitOn_cons_eq_if_modifyHead, List.splitOn_cons_eq_if_modifyHead,
      alone, both]
    split_ifs with slash
    · exact ⟨[] :: before, last, rfl, rfl⟩
    · cases before with
      | nil => exact ⟨[], c :: last, rfl, rfl⟩
      | cons first before => exact ⟨(c :: first) :: before, last, rfl, rfl⟩

/-- Nothing, or text that ends in a slash. -/
def Closed (front : List Char) : Prop := front = [] ∨ front.getLast? = some '/'

theorem last_of_closed {front last : List Char} {before : List (List Char)} (closed : Closed front)
    (split : front.splitOn '/' = before ++ [last]) : last = [] := by
  rcases closed with rfl | slash
  · have same : [[]] = before ++ [last] := split
    simpa using (congrArg List.getLast? same).symm
  · obtain ⟨front, rfl⟩ := List.getLast?_eq_some_iff.mp slash
    rw [List.splitOn_append_cons_self, List.splitOn_nil] at split
    simpa using (congrArg List.getLast? split).symm

theorem closed_tail {c : Char} {front : List Char} (closed : Closed (c :: front)) :
    Closed front := by
  rcases closed with empty | slash
  · cases empty
  · cases front with
    | nil => exact .inl rfl
    | cons => exact .inr (by rwa [List.getLast?_cons_cons] at slash)

/-- The last name of a path ends as the path does; it is no more than that behind a slash. -/
theorem names_append {path : String} {front back : List Char} (whole : path.toList = front ++ back)
    (plain : '/' ∉ back) :
    ∃ before last, names path = before ++ [String.ofList (last ++ back)] ∧
      (Closed front → last = []) := by
  obtain ⟨kept, cut, closed⟩ : ∃ kept,
      (if isAbsolute path then path.toList.drop 1 else path.toList) = kept ++ back ∧
        (Closed front → Closed kept) := by
    rw [isAbsolute, whole]
    -- A slash at the start is not in the back, so it is cut off from the front.
    cases front with
    | nil =>
      have relative : ¬ back.head? = some '/' := fun first => plain (List.mem_of_head? first)
      exact ⟨[], by simp [relative], id⟩
    | cons c front =>
      by_cases absolute : c = '/'
      · exact ⟨front, by simp [absolute], closed_tail⟩
      · exact ⟨c :: front, by simp [absolute], id⟩
  obtain ⟨before, last, alone, both⟩ := splitOn_append plain kept
  refine ⟨before.map String.ofList, last, ?_, fun c => last_of_closed (closed c) alone⟩
  rw [names, cut, both, List.map_append, List.map_singleton]

/-- Joining adds in front, up to a slash. -/
theorem toList_join (directory file : String) :
    ∃ front, (join directory file).toList = front ++ file.toList ∧ Closed front := by
  unfold join
  split_ifs with alone slash
  · exact ⟨[], rfl, .inl rfl⟩
  · exact ⟨directory.toList, String.toList_append, .inr slash⟩
  · exact ⟨directory.toList ++ ['/'], by simp, .inr (by simp)⟩

end Path

namespace Tree

variable {t t' : Tree} {here place : List String} {names : List String} {path : String}

/-! ## Entries -/

theorem lookup_putInto (p q : List String) (e : Entry) (entries : List (List String × Entry)) :
    (putInto p e entries).lookup q = if q = p then some e else entries.lookup q := by
  induction entries with
  | nil => by_cases same : q = p <;> simp [putInto, same]
  | cons first rest ih =>
    obtain ⟨r, e'⟩ := first
    by_cases replaced : r = p
    · subst r
      by_cases same : q = p <;> simp [putInto, same, List.lookup_cons, beq_eq_false_iff_ne.mpr]
    · by_cases found : q = r
      · subst q
        simp [putInto, replaced]
      · simp [putInto, replaced, List.lookup_cons, found, ih, beq_eq_false_iff_ne.mpr]

theorem find?_put {p : List String} (inside : p ≠ []) (e : Entry) (q : List String) :
    (t.put p e).find? q = if q = p then some e else t.find? q := by
  unfold find? put
  by_cases root : q = []
  · subst q
    simp [Ne.symm inside]
  · rw [if_neg root, if_neg root]
    exact lookup_putInto p q e t.entries

theorem find?_root : t.find? [] = some .directory := by
  rw [find?, if_pos rfl]

/-! ## Where a path leads -/

/-- One name further, whatever is there. -/
def step (here : List String) (name : String) : List String :=
  if Path.isIdle name then here
  else if name = ".." then here.dropLast
  else here ++ [name]

def start (t : Tree) (path : String) : List String :=
  if Path.isAbsolute path then [] else t.home

/-- The place that a path leads to in a tree that has all the directories on the way. -/
def placeOf (t : Tree) (path : String) : List String := (Path.names path).foldl step (t.start path)

theorem getLast?_placeOf {before : List String} {name : String} (t : Tree)
    (named : Path.names path = before ++ [name]) (long : 2 < name.length) :
    (t.placeOf path).getLast? = some name := by
  have kept : ¬ Path.isIdle name := by
    rw [Path.isIdle, Bool.or_eq_true, decide_eq_true_eq, decide_eq_true_eq]
    rintro (rfl | rfl) <;> exact absurd long (by decide)
  have down : name ≠ ".." := by
    rintro rfl
    exact absurd long (by decide)
  rw [placeOf, named, List.foldl_concat, step, if_neg kept, if_neg down, List.getLast?_concat]

/-- A name of an entry. -/
structure Plain (name : String) : Prop where
  kept : ¬ Path.isIdle name
  down : name ≠ ".."
  short : ¬ 255 < name.utf8ByteSize

theorem step_plain {name : String} (plain : Plain name) : step here name = here ++ [name] := by
  rw [step, if_neg plain.kept, if_neg plain.down]

/-- Names that lead through directories to a file, which may be there or not. -/
inductive Reaches (t : Tree) : List String → List String → List String → Prop where
  | file {here : List String} {name : String} (plain : Plain name)
      (other : t.find? (here ++ [name]) ≠ some .directory) :
      Reaches t here [name] (here ++ [name])
  | idle {here names place : List String} {name : String} (idle : Path.isIdle name)
      (rest : Reaches t here names place) : Reaches t here (name :: names) place
  | up {here names place : List String} (rest : Reaches t here.dropLast names place) :
      Reaches t here (".." :: names) place
  | down {here names place : List String} {name : String} (plain : Plain name)
      (directory : t.find? (here ++ [name]) = some .directory)
      (rest : Reaches t (here ++ [name]) names place) : Reaches t here (name :: names) place

namespace Reaches

theorem place_eq (r : Reaches t here names place) : place = names.foldl step here := by
  induction r with
  | file plain other => rw [List.foldl_cons, step_plain plain, List.foldl_nil]
  | idle idle rest ih => rw [List.foldl_cons, step, if_pos idle, ih]
  | up rest ih => rw [List.foldl_cons, ih]; rfl
  | down plain directory rest ih => rw [List.foldl_cons, step_plain plain, ih]

theorem ne_root (r : Reaches t here names place) : place ≠ [] := by
  induction r with
  | file => simp
  | idle _ _ ih | up _ ih | down _ _ _ ih => exact ih

theorem not_directory (r : Reaches t here names place) : t.find? place ≠ some .directory := by
  induction r with
  | file plain other => exact other
  | idle _ _ ih | up _ ih | down _ _ _ ih => exact ih

/-- It takes no more than the directories. -/
theorem mono (r : Reaches t here names place)
    (directories : ∀ p, t.find? p = some .directory → t'.find? p = some .directory)
    (other : t'.find? place ≠ some .directory) : Reaches t' here names place := by
  induction r with
  | file plain _ => exact .file plain other
  | idle idle _ ih => exact .idle idle (ih other)
  | up _ ih => exact .up (ih other)
  | down plain directory _ ih => exact .down plain (directories _ directory) (ih other)

theorem follow (r : Reaches t here names place) :
    t.follow here names = .ok (match t.find? place with
      | some e => .entry place e
      | none => .missing place false) := by
  induction r with
  | @file here name plain other =>
    rw [Tree.follow, if_neg plain.kept, if_neg plain.down, if_neg plain.short]
    dsimp only
    cases entry : t.find? (here ++ [name]) with
    | none => rfl
    | some e =>
      cases e with
      | directory => contradiction
      | text _ | binary => rfl
  | idle idle _ ih => rw [Tree.follow, if_pos idle, ih]
  | up _ ih => rw [Tree.follow, if_neg (by decide), if_pos rfl, ih]
  | down plain directory _ ih =>
    rw [Tree.follow, if_neg plain.kept, if_neg plain.down, if_neg plain.short]
    dsimp only
    rw [directory]
    exact ih

end Reaches

/-- What has been found is a directory, or in a place that is led to. -/
def Found.In (t : Tree) (led : List String → Prop) : Found → Prop
  | .entry place e => e ≠ .directory → led place ∧ t.find? place = some e
  | .missing place slash => t.find? place = none ∧ (slash = false → led place)

theorem Found.In.mono {led led' : List String → Prop} {found : Found}
    (more : ∀ {place}, led place → led' place) (h : found.In t led) : found.In t led' := by
  cases found with
  | entry place e => exact fun file => (h file).imp_left more
  | missing place slash => exact h.imp_right fun leads unslashed => more (leads unslashed)

theorem found_of_follow {found : Found} (followed : t.follow here names = .ok found) :
    found.In t (Reaches t here names) := by
  induction names generalizing here with
  | nil =>
    cases followed
    exact fun file => absurd rfl file
  | cons name names ih =>
    rw [follow] at followed
    split at followed
    · rename_i idle
      exact (ih followed).mono (.idle idle)
    split at followed
    · rename_i up
      subst up
      exact (ih followed).mono .up
    split at followed
    · cases followed
    rename_i kept down short
    have plain : Plain name := ⟨kept, down, short⟩
    dsimp only at followed
    cases entry : t.find? (here ++ [name]) with
    | none =>
      rw [entry] at followed
      dsimp only at followed
      split_ifs at followed with last
      cases followed
      refine ⟨entry, fun unslashed => ?_⟩
      have last : names = [] := by simpa using unslashed
      subst last
      exact .file plain (by rw [entry]; nofun)
    | some e =>
      rw [entry] at followed
      by_cases directory : e = .directory
      · subst directory
        exact (ih followed).mono (.down plain entry)
      · have last : names = [] ∧ found = .entry (here ++ [name]) e := by
          cases e with
          | directory => contradiction
          | text _ | binary =>
            dsimp only at followed
            split_ifs at followed with last
            cases followed
            exact ⟨last, rfl⟩
        obtain ⟨rfl, rfl⟩ := last
        exact fun file => ⟨.file plain (by rwa [entry, ne_eq, Option.some.injEq]), entry⟩

/-- A path that leads to a file, which may be there or not. -/
structure Leads (t : Tree) (path : String) (place : List String) : Prop where
  clean : ¬ path.toList.contains '\x00'
  nonempty : ¬ path.isEmpty
  short : ¬ 4096 ≤ path.utf8ByteSize
  reaches : Reaches t (t.start path) (Path.names path) place

namespace Leads

theorem place_eq (leads : Leads t path place) : place = t.placeOf path := leads.reaches.place_eq

theorem locate (leads : Leads t path place) :
    t.locate path = .ok (match t.find? place with
      | some e => .entry place e
      | none => .missing place false) := by
  rw [Tree.locate, if_neg leads.clean, if_neg leads.nonempty, if_neg leads.short]
  exact leads.reaches.follow

end Leads

theorem found_of_locate {found : Found} (located : t.locate path = .ok found) :
    found.In t (t.Leads path) := by
  unfold locate at located
  split at located
  · cases located
  split at located
  · cases located
  split at located
  · cases located
  rename_i clean nonempty short
  exact (found_of_follow located).mono fun reaches => ⟨clean, nonempty, short, reaches⟩

theorem readText_eq_ok {contents : String} :
    t.readText path = .ok contents ↔
      t.Leads path (t.placeOf path) ∧ t.find? (t.placeOf path) = some (.text contents) := by
  constructor
  · intro read
    unfold readText at read
    cases located : t.locate path with
    | error e => simp [located, bind, Except.bind] at read
    | ok found =>
      rw [located] at read
      match found, found_of_locate located with
      | .entry place (.text s), inside =>
        cases read
        obtain ⟨leads, entry⟩ := inside nofun
        cases leads.place_eq
        exact ⟨leads, entry⟩
      | .entry _ .directory, _ | .entry _ .binary, _ | .missing _ _, _ => cases read
  · rintro ⟨leads, entry⟩
    rw [readText, leads.locate, entry]
    rfl

theorem write_eq_ok {contents : String} (written : t.write path contents = .ok t') :
    t.Leads path (t.placeOf path) ∧ t' = t.put (t.placeOf path) (.text contents) := by
  unfold write at written
  cases located : t.locate path with
  | error e => simp [located, bind, Except.bind] at written
  | ok found =>
    rw [located] at written
    match found, found_of_locate located with
    | .entry _ .directory, _ | .missing _ true, _ => cases written
    | .entry place (.text _), inside | .entry place .binary, inside =>
      cases written
      obtain ⟨leads, -⟩ := inside nofun
      cases leads.place_eq
      exact ⟨leads, rfl⟩
    | .missing place false, ⟨_, led⟩ =>
      cases written
      have leads := led rfl
      cases leads.place_eq
      exact ⟨leads, rfl⟩

/-! ## What changes -/

theorem placeOf_congr (home : t'.home = t.home) (path : String) :
    t'.placeOf path = t.placeOf path := by
  rw [placeOf, placeOf, start, start, home]

theorem Leads.mono (leads : t.Leads path place) (home : t'.home = t.home)
    (directories : ∀ p, t.find? p = some .directory → t'.find? p = some .directory)
    (other : t'.find? place ≠ some .directory) : t'.Leads path place := by
  have started : t'.start path = t.start path := by rw [start, start, home]
  refine ⟨leads.clean, leads.nonempty, leads.short, ?_⟩
  rw [started]
  exact leads.reaches.mono directories other

/-- Entries come in, and none changes. -/
structure Grows (t t' : Tree) : Prop where
  home : t'.home = t.home
  keeps {p : List String} {e : Entry} (entry : t.find? p = some e) : t'.find? p = some e

theorem Grows.refl (t : Tree) : Grows t t := ⟨rfl, id⟩

theorem Grows.trans {t'' : Tree} (before : Grows t t') (behind : Grows t' t'') : Grows t t'' :=
  ⟨behind.home.trans before.home, fun entry => behind.keeps (before.keeps entry)⟩

theorem grows_makeDirectory (made : t.makeDirectory path = .ok t') : Grows t t' := by
  unfold makeDirectory at made
  cases located : t.locate path with
  | error e => simp [located, bind, Except.bind] at made
  | ok found =>
    rw [located] at made
    match found, found_of_locate located with
    | .entry _ _, _ => cases made
    | .missing p _, ⟨absent, _⟩ =>
      cases made
      have inside : p ≠ [] := by
        rintro rfl
        rw [find?_root] at absent
        cases absent
      refine ⟨rfl, fun {q e} entry => ?_⟩
      have other : q ≠ p := by
        rintro rfl
        rw [absent] at entry
        cases entry
      rwa [find?_put inside, if_neg other]

/-- Steps in which a tree grows, if it changes at all. -/
def Growing {α : Type} (x : StateM Tree α) : Prop := ∀ t, Grows t (x t).2

namespace Growing

variable {α β : Type}

theorem pure (a : α) : Growing (Pure.pure a : StateM Tree α) := fun t => .refl t

theorem bind {x : StateM Tree α} {f : α → StateM Tree β} (first : Growing x)
    (next : ∀ a, Growing (f a)) : Growing (x >>= f) :=
  fun t => (first t).trans (next _ _)

end Growing

theorem growing_make (path : String) : Growing (maker.make path) := by
  intro t
  unfold maker
  dsimp only
  split
  · exact grows_makeDirectory ‹_›
  · exact .refl t

theorem growing_refusal? (path : String) : Growing (maker.refusal? path) := by
  refine (growing_make path).bind fun e? => ?_
  split
  · exact .pure _
  · exact .bind (fun t => .refl t) fun there => .pure _
  · exact .pure _

theorem growing_makeEach (paths : List String) : Growing (maker.makeEach paths) := by
  induction paths with
  | nil => exact .pure _
  | cons path paths ih =>
    refine (growing_refusal? path).bind fun e? => ?_
    cases e? with
    | none => exact ih
    | some e => exact .pure _

theorem growing_makeFrom (passed paths : List String) : Growing (maker.makeFrom passed paths) := by
  induction paths generalizing passed with
  | nil => exact growing_makeEach passed
  | cons path paths ih =>
    unfold DirectoryMaker.makeFrom
    split
    · exact growing_makeEach passed
    · refine (growing_refusal? path).bind fun e? => ?_
      split
      · exact growing_makeEach passed
      · exact ih (path :: passed)
      · exact .pure _

theorem grows_makeDirectories (t : Tree) (path : String) : Grows t (t.makeDirectories path).2 :=
  growing_makeFrom [] (Path.ancestors path) t

/-- A text has been put in a place for files, and other entries have stayed. -/
structure Stored (t t' : Tree) (place : List String) (contents : String) : Prop where
  home : t'.home = t.home
  other : t.find? place ≠ some .directory
  here : t'.find? place = some (.text contents)
  keeps {p : List String} {e : Entry} (apart : p ≠ place) (entry : t.find? p = some e) :
    t'.find? p = some e

namespace Stored

variable {contents text : String}

/-- Paths lead where they led to. -/
theorem leads {p : List String} (stored : Stored t t' place contents) (leads : t.Leads path p)
    (found : t'.find? p = some (.text text)) : t'.Leads path p := by
  refine leads.mono stored.home (fun q directory => stored.keeps ?_ directory) ?_
  · rintro rfl
    exact stored.other directory
  · rw [found]
    nofun

/-- The stored text is what is read from paths of its place. From others the same is read as
before. -/
theorem readText (stored : Stored t t' place contents) (read : t.readText path = .ok text) :
    t'.readText path = .ok (if t.placeOf path = place then contents else text) := by
  obtain ⟨leads, entry⟩ := readText_eq_ok.mp read
  have found : t'.find? (t.placeOf path) =
      some (.text (if t.placeOf path = place then contents else text)) := by
    split_ifs with same
    · rw [same, stored.here]
    · exact stored.keeps same entry
  rw [readText_eq_ok, placeOf_congr stored.home]
  exact ⟨stored.leads leads found, found⟩

end Stored

theorem stored_of_write {contents : String} (written : t.write path contents = .ok t') :
    Stored t t' (t.placeOf path) contents ∧ t'.readText path = .ok contents := by
  obtain ⟨leads, rfl⟩ := write_eq_ok written
  have found := find?_put leads.reaches.ne_root (.text contents) (t := t)
  have stored : Stored t (t.put (t.placeOf path) (.text contents)) (t.placeOf path) contents := by
    refine ⟨rfl, leads.reaches.not_directory, ?_, fun apart entry => ?_⟩
    · rw [found, if_pos rfl]
    · rw [found, if_neg apart, entry]
  exact ⟨stored, readText_eq_ok.mpr ⟨stored.leads leads stored.here, stored.here⟩⟩

theorem Grows.stored {t'' : Tree} {contents : String} (grows : Grows t t')
    (stored : Stored t' t'' place contents) : Stored t t'' place contents :=
  ⟨stored.home.trans grows.home, fun directory => stored.other (grows.keeps directory), stored.here,
    fun apart entry => stored.keeps apart (grows.keeps entry)⟩

end Tree

end SwiftCodec
