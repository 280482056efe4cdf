import SwiftCodec.Proofs.Name.Dotted
import SwiftCodec.Proofs.TypeExpr.Nodes
import SwiftCodec.TypeExpr.Spelling
import Mathlib.Logic.Function.Iterate

/-!
The spelling of a type gives the type away. What follows a type inside another is a comma, a colon
or a closing bracket, and none of them goes on with a type; so a text that begins with a spelling
begins with that of one type only, but for the question marks behind it, which are counted along.
-/
namespace SwiftCodec.TypeExpr

mutual
/-- A type as it is spelled: what aliases stand for is not seen. -/
def unaliased : TypeExpr → TypeExpr
  | ⟨base, _, args⟩ => ⟨base, none, unaliasedAll args⟩
termination_by structural t => t
def unaliasedAll : List TypeExpr → List TypeExpr
  | [] => []
  | t :: ts => unaliased t :: unaliasedAll ts
termination_by structural ts => ts
end

theorem unaliasedAll_eq_map (ts : List TypeExpr) : unaliasedAll ts = ts.map unaliased := by
  induction ts with
  | nil => rfl
  | cons t ts ih => rw [unaliasedAll, ih, List.map_cons]

theorem unaliased_node (base : String) (target : Option String) (args : List TypeExpr) :
    unaliased ⟨base, target, args⟩ = ⟨base, none, args.map unaliased⟩ := by
  rw [unaliased, unaliasedAll_eq_map]

/-- The spelling sees nothing but the names that are written. -/
theorem spell_unaliased (t : TypeExpr) : t.unaliased.spell = t.spell := by
  induction t with
  | node base target args ih =>
    rw [unaliased_node, spell, spell, spellAll_eq_map, spellAll_eq_map, List.map_map]
    congr 1
    exact List.map_congr_left ih

/-- All names in a type are dotted ones. -/
def DottedNames (t : TypeExpr) : Prop := ∀ n ∈ t.nodes, Name.isDotted n.base

instance (t : TypeExpr) : Decidable t.DottedNames :=
  inferInstanceAs (Decidable (∀ n ∈ t.nodes, _))

theorem DottedNames.here {t : TypeExpr} (dotted : t.DottedNames) : Name.isDotted t.base :=
  dotted t t.self_mem_nodes

theorem DottedNames.arg {t a : TypeExpr} (dotted : t.DottedNames) (arg : a ∈ t.args) :
    a.DottedNames := fun n inside => dotted n (mem_nodes_of_arg arg inside)

/-! ## The text of a type -/

/-- The characters of a spelling. -/
def text (t : TypeExpr) : List Char := t.spell.toList

/-- The arguments of a type in angle brackets, if there are any. -/
def suffix : List TypeExpr → List Char
  | [] => []
  | a :: as => '<' :: (a.text ++ as.flatMap (fun b => ',' :: ' ' :: b.text) ++ ['>'])

/-- How a text that has no question mark of its own at the end spells a type: by the square brackets
that its name and the number of its arguments have, or by the name with the arguments behind it. -/
inductive Core : TypeExpr → List Char → Prop where
  | array {target : Option String} {a : TypeExpr} :
      Core ⟨"Array", target, [a]⟩ ('[' :: (a.text ++ [']']))
  | dictionary {target : Option String} {k v : TypeExpr} :
      Core ⟨"Dictionary", target, [k, v]⟩ ('[' :: (k.text ++ ':' :: (v.text ++ [']'])))
  | named {base : String} {target : Option String} {args : List TypeExpr} :
      Core ⟨base, target, args⟩ (base.toList ++ suffix args)

theorem toList_listed (a : TypeExpr) (as : List TypeExpr) :
    (String.intercalate ", " ((a :: as).map spell)).toList =
      a.text ++ as.flatMap fun b => ',' :: ' ' :: b.text := by
  have separator : ", ".toList = [',', ' '] := by decide
  induction as generalizing a with
  | nil => simp [text]
  | cons b as ih =>
    rw [List.map_cons, List.map_cons, String.intercalate_cons_cons, ← List.map_cons,
      String.toList_append, ih b, String.toList_append, separator]
    simp [text]

/-- A name with a list of arguments behind it. -/
theorem toList_bracketed (base : String) (a : TypeExpr) (as : List TypeExpr) :
    (base ++ "<" ++ String.intercalate ", " ((a :: as).map spell) ++ ">").toList =
      base.toList ++ suffix (a :: as) := by
  have opening : "<".toList = ['<'] := by decide
  have closing : ">".toList = ['>'] := by decide
  simp only [String.toList_append, toList_listed, opening, closing, suffix]
  simp

theorem optional_or_core (t : TypeExpr) :
    (∃ target a, t = ⟨"Optional", target, [a]⟩ ∧ t.text = a.text ++ ['?']) ∨ Core t t.text := by
  obtain ⟨base, target, args⟩ := t
  have spelled : text ⟨base, target, args⟩ = (spellWith base (args.map spell)).toList := by
    rw [text, spell, spellAll_eq_map]
  rw [spelled]
  match args with
  | [] =>
    right
    have bare : (spellWith base []).toList = base.toList ++ suffix [] := by
      simp [spellWith, suffix]
    rw [List.map_nil, bare]
    exact .named
  | [a] =>
    simp only [List.map_cons, List.map_nil, spellWith]
    split_ifs with optional array
    · left
      subst optional
      exact ⟨target, a, rfl, String.toList_append⟩
    · right
      subst array
      have bracketed : ("[" ++ a.spell ++ "]").toList = '[' :: (a.text ++ [']']) := by
        simp [text]
      rw [bracketed]
      exact .array
    · right
      have listed := toList_bracketed base a []
      rw [List.map_cons, List.map_nil, String.intercalate_singleton] at listed
      rw [listed]
      exact .named
  | [a, b] =>
    right
    simp only [List.map_cons, List.map_nil, spellWith]
    split_ifs with dictionary
    · subst dictionary
      have bracketed : ("[" ++ a.spell ++ ":" ++ b.spell ++ "]").toList =
          '[' :: (a.text ++ ':' :: (b.text ++ [']'])) := by
        simp [text]
      rw [bracketed]
      exact .dictionary
    · have listed := toList_bracketed base a [b]
      simp only [List.map_cons, List.map_nil, String.intercalate_cons_cons,
        String.intercalate_singleton] at listed
      simp only [String.append_assoc] at listed ⊢
      rw [listed]
      exact .named
  | a :: b :: c :: rest =>
    right
    have listed := toList_bracketed base a (b :: c :: rest)
    simp only [List.map_cons] at listed ⊢
    rw [spellWith, listed]
    · exact .named
    all_goals simp

/-- Every type is one without a question mark of its own, made optional any number of times. -/
theorem exists_core (u : TypeExpr) :
    ∃ j d, Core d d.text ∧ u.unaliased = optional^[j] d.unaliased ∧
      u.text = d.text ++ List.replicate j '?' ∧ (u.DottedNames → d.DottedNames) := by
  induction u with
  | node base target args ih =>
    rcases optional_or_core ⟨base, target, args⟩ with ⟨target', a, same, spelled⟩ | core
    · cases same
      obtain ⟨j, d, core, under, marked, dotted⟩ := ih a List.mem_cons_self
      refine ⟨j + 1, d, core, ?_, ?_, fun h => dotted (h.arg List.mem_cons_self)⟩
      · rw [unaliased_node, List.map_singleton, under, Function.iterate_succ_apply']
        rfl
      · rw [spelled, marked, List.append_assoc, List.replicate_succ']
    · exact ⟨0, _, core, rfl, by simp, id⟩

/-! ## What can come behind a type -/

/-- At the end of a text, or before a sign that a type inside another is followed by. -/
def Stops (rest : List Char) : Prop := ∀ c ∈ rest.head?, c ∈ [',', ':', '>', ']']

theorem stops_cons {c : Char} {rest : List Char} (sign : c ∈ [',', ':', '>', ']']) :
    Stops (c :: rest) := by
  intro d head
  cases head
  exact sign

/-- Behind a name: no character goes on with it. -/
def Ends (rest : List Char) : Prop := ∀ c ∈ rest.head?, Name.isNameChar c = false

/-- Names that nothing goes on with are told apart from what is behind them. -/
theorem names_cancel {m n : String} {r s : List Char} (hm : Name.isDotted m) (hn : Name.isDotted n)
    (endsR : Ends r) (endsS : Ends s) (same : m.toList ++ r = n.toList ++ s) : m = n ∧ r = s := by
  have name {x : String} {rest : List Char} (dotted : Name.isDotted x) (ends : Ends rest) :
      (x.toList ++ rest).takeWhile Name.isNameChar = x.toList := by
    rw [List.takeWhile_append_of_pos (Name.isNameChar_of_isDotted dotted)]
    cases rest with
    | nil => simp
    | cons c rest => simp [ends c rfl]
  have front : m.toList = n.toList := by
    rw [← name hm endsR, same, name hn endsS]
  rw [front] at same
  exact ⟨String.toList_inj.mp front, List.append_cancel_left same⟩

/-- Question marks are counted when what is behind them is none. -/
theorem marks_cancel {k l : Nat} {r s : List Char} (stopsR : Stops r) (stopsS : Stops s)
    (same : List.replicate k '?' ++ r = List.replicate l '?' ++ s) : k = l ∧ r = s := by
  have unmarked {rest : List Char} : ¬ Stops ('?' :: rest) := by
    intro stops
    exact absurd (stops '?' rfl) (by decide)
  induction k generalizing l with
  | zero =>
    cases l with
    | zero => exact ⟨rfl, same⟩
    | succ l =>
      simp only [List.replicate_zero, List.nil_append] at same
      exact absurd (same ▸ stopsR) unmarked
  | succ k ih =>
    cases l with
    | zero =>
      simp only [List.replicate_zero, List.nil_append] at same
      exact absurd (same.symm ▸ stopsS) unmarked
    | succ l =>
      obtain ⟨count, rest⟩ := ih (List.cons.inj same).2
      exact ⟨congrArg (· + 1) count, rest⟩

theorem ends_marked (k : Nat) {rest : List Char} (stops : Stops rest) :
    Ends (List.replicate k '?' ++ rest) ∧ (List.replicate k '?' ++ rest).head? ≠ some '<' := by
  cases k with
  | zero =>
    constructor
    · intro c head
      have signs : [',', ':', '>', ']'].all (Name.isNameChar · = false) := by decide
      exact of_decide_eq_true (List.all_eq_true.mp signs c (stops c head))
    · intro head
      exact absurd (stops '<' head) (by decide)
  | succ k =>
    constructor
    · intro c head
      cases head
      decide
    · intro head
      cases head

/-! ## Types behind each other -/

/-- A text begins with the spelling of the type and question marks only as it does with those of any
other that becomes the same type by as many question marks as stand behind it. -/
def Determined (t : TypeExpr) : Prop :=
  ∀ (u : TypeExpr) k l r s, t.DottedNames → u.DottedNames → Stops r → Stops s →
    t.text ++ (List.replicate k '?' ++ r) = u.text ++ (List.replicate l '?' ++ s) →
      optional^[k] t.unaliased = optional^[l] u.unaliased ∧ r = s

theorem Determined.cancel {t u : TypeExpr} (determined : t.Determined) (dotted : t.DottedNames)
    (dotted' : u.DottedNames) {r s : List Char} (stopsR : Stops r) (stopsS : Stops s)
    (same : t.text ++ r = u.text ++ s) : t.unaliased = u.unaliased ∧ r = s :=
  determined u 0 0 r s dotted dotted' stopsR stopsS same

/-- What stands behind the first argument of a list. -/
def behind (as : List TypeExpr) (rest : List Char) : List Char :=
  as.flatMap (fun b => ',' :: ' ' :: b.text) ++ '>' :: rest

theorem stops_behind (as : List TypeExpr) (rest : List Char) : Stops (behind as rest) := by
  cases as with
  | nil => exact stops_cons (by decide)
  | cons a as => exact stops_cons (by decide)

theorem listed_cancel {a b : TypeExpr} {as bs : List TypeExpr} {r s : List Char}
    (determined : ∀ t ∈ a :: as, t.Determined) (dotted : ∀ t ∈ a :: as, t.DottedNames)
    (dotted' : ∀ u ∈ b :: bs, u.DottedNames)
    (same : a.text ++ behind as r = b.text ++ behind bs s) :
    (a :: as).map unaliased = (b :: bs).map unaliased ∧ r = s := by
  -- Behind the first arguments, a comma or the closing bracket tells which of the lists goes on.
  induction as generalizing a b bs with
  | nil =>
    obtain ⟨head, rest⟩ := (determined a List.mem_cons_self).cancel (dotted a List.mem_cons_self)
      (dotted' b List.mem_cons_self) (stops_behind _ _) (stops_behind _ _) same
    cases bs with
    | nil => exact ⟨by simp [head], (List.cons.inj rest).2⟩
    | cons b' bs => exact absurd (List.cons.inj rest).1 (by decide)
  | cons a' as ih =>
    obtain ⟨head, rest⟩ := (determined a List.mem_cons_self).cancel (dotted a List.mem_cons_self)
      (dotted' b List.mem_cons_self) (stops_behind _ _) (stops_behind _ _) same
    cases bs with
    | nil => exact absurd (List.cons.inj rest).1 (by decide)
    | cons b' bs =>
      have later : a'.text ++ behind as r = b'.text ++ behind bs s := by
        simpa [behind] using rest
      obtain ⟨tail, rest⟩ := ih (fun t member => determined t (List.mem_cons_of_mem _ member))
        (fun t member => dotted t (List.mem_cons_of_mem _ member))
        (fun u member => dotted' u (List.mem_cons_of_mem _ member)) later
      exact ⟨by rw [List.map_cons, head, tail, ← List.map_cons], rest⟩

theorem suffix_cons (a : TypeExpr) (as : List TypeExpr) (rest : List Char) :
    suffix (a :: as) ++ rest = '<' :: (a.text ++ behind as rest) := by
  simp [suffix, behind]

theorem suffix_cancel {as bs : List TypeExpr} {r s : List Char}
    (determined : ∀ t ∈ as, t.Determined) (dotted : ∀ t ∈ as, t.DottedNames)
    (dotted' : ∀ u ∈ bs, u.DottedNames) (plainR : r.head? ≠ some '<') (plainS : s.head? ≠ some '<')
    (same : suffix as ++ r = suffix bs ++ s) : as.map unaliased = bs.map unaliased ∧ r = s := by
  cases as with
  | nil =>
    cases bs with
    | nil => exact ⟨rfl, same⟩
    | cons b bs =>
      rw [suffix_cons] at same
      exact absurd (congrArg List.head? same) plainR
  | cons a as =>
    cases bs with
    | nil =>
      rw [suffix_cons] at same
      exact absurd (congrArg List.head? same).symm plainS
    | cons b bs =>
      rw [suffix_cons, suffix_cons] at same
      exact listed_cancel determined dotted dotted' (List.cons.inj same).2

theorem ends_suffix (as : List TypeExpr) {rest : List Char} (ends : Ends rest) :
    Ends (suffix as ++ rest) := by
  cases as with
  | nil => exact ends
  | cons a as =>
    rw [suffix_cons]
    intro c head
    cases head
    decide

/-- A bracket is no name. -/
theorem bracket_ne_name {base : String} (dotted : Name.isDotted base) (r s : List Char) :
    '[' :: r ≠ base.toList ++ s := by
  intro same
  unfold Name.isDotted at dotted
  cases chars : base.toList with
  | nil =>
    rw [chars] at dotted
    cases dotted
  | cons c cs =>
    rw [chars] at same
    obtain rfl := (List.cons.inj same).1
    rw [chars, Name.isDottedFrom, if_neg (by decide)] at dotted
    simp [Name.isHead] at dotted

/-- Two texts that begin with types without question marks of their own, and go on with something
that neither is part of a name nor opens a list of arguments. -/
theorem core_cancel {t u : TypeExpr} (core : Core t t.text) (core' : Core u u.text)
    (inside : ∀ a ∈ t.args, a.Determined) (dotted : t.DottedNames) (dotted' : u.DottedNames)
    {r s : List Char} (endsR : Ends r ∧ r.head? ≠ some '<') (endsS : Ends s ∧ s.head? ≠ some '<')
    (same : t.text ++ r = u.text ++ s) : t.unaliased = u.unaliased ∧ r = s := by
  have closed (rest : List Char) : Stops (']' :: rest) := stops_cons (by decide)
  have parted (rest : List Char) : Stops (':' :: rest) := stops_cons (by decide)
  have args (a : TypeExpr) (arg : a ∈ t.args) : a.DottedNames := dotted.arg arg
  have args' (b : TypeExpr) (arg : b ∈ u.args) : b.DottedNames := dotted'.arg arg
  have here := dotted.here
  have here' := dotted'.here
  generalize t.text = front at core same
  generalize u.text = front' at core' same
  cases core with
  | @array _ a =>
    have determined := inside a (by simp)
    cases core' with
    | @array _ b =>
      simp only [List.cons_append, List.append_assoc, List.cons.injEq, true_and,
        List.nil_append] at same
      obtain ⟨element, rest⟩ := determined.cancel (args a (by simp)) (args' b (by simp)) (closed _)
        (closed _) same
      exact ⟨by simp [unaliased_node, element], (List.cons.inj rest).2⟩
    | @dictionary _ k v =>
      simp only [List.cons_append, List.append_assoc, List.cons.injEq, true_and,
        List.nil_append] at same
      obtain ⟨_, rest⟩ := determined.cancel (args a (by simp)) (args' k (by simp)) (closed _)
        (parted _) same
      exact absurd (List.cons.inj rest).1 (by decide)
    | named =>
      simp only [List.cons_append, List.append_assoc] at same
      exact absurd same (bracket_ne_name here' _ _)
  | @dictionary _ k v =>
    have determined := inside k (by simp)
    cases core' with
    | @array _ b =>
      simp only [List.cons_append, List.append_assoc, List.cons.injEq, true_and,
        List.nil_append] at same
      obtain ⟨_, rest⟩ := determined.cancel (args k (by simp)) (args' b (by simp)) (parted _)
        (closed _) same
      exact absurd (List.cons.inj rest).1 (by decide)
    | @dictionary _ k' v' =>
      simp only [List.cons_append, List.append_assoc, List.cons.injEq, true_and,
        List.nil_append] at same
      obtain ⟨key, rest⟩ := determined.cancel (args k (by simp)) (args' k' (by simp)) (parted _)
        (parted _) same
      obtain ⟨value, rest⟩ := (inside v (by simp)).cancel (args v (by simp)) (args' v' (by simp))
        (closed _) (closed _) (List.cons.inj rest).2
      exact ⟨by simp [unaliased_node, key, value], (List.cons.inj rest).2⟩
    | named =>
      simp only [List.cons_append, List.append_assoc] at same
      exact absurd same (bracket_ne_name here' _ _)
  | @named base _ as =>
    cases core' with
    | array | dictionary =>
      simp only [List.cons_append, List.append_assoc] at same
      exact absurd same.symm (bracket_ne_name here _ _)
    | @named base' _ bs =>
      rw [List.append_assoc, List.append_assoc] at same
      obtain ⟨rfl, rest⟩ :=
        names_cancel here here' (ends_suffix as endsR.1) (ends_suffix bs endsS.1) same
      obtain ⟨alike, rest⟩ := suffix_cancel inside args args' endsR.2 endsS.2 rest
      exact ⟨by rw [unaliased_node, unaliased_node, alike], rest⟩

theorem determined (t : TypeExpr) : t.Determined := by
  induction t with
  | node base target args ih =>
    intro u k l r s dotted dotted' stopsR stopsS same
    rcases optional_or_core ⟨base, target, args⟩ with ⟨target', a, optional, spelled⟩ | core
    · -- One more question mark stands behind the type inside.
      cases optional
      have marked : a.text ++ (List.replicate (k + 1) '?' ++ r) =
          u.text ++ (List.replicate l '?' ++ s) := by
        rw [← same, spelled, List.append_assoc]
        rfl
      have arg : a ∈ [a] := List.mem_cons_self
      obtain ⟨alike, rest⟩ := ih a arg u (k + 1) l r s (dotted.arg arg) dotted' stopsR stopsS marked
      exact ⟨by rw [← alike, Function.iterate_succ_apply, unaliased_node]; rfl, rest⟩
    · obtain ⟨j, d, core', under, marked, dotted''⟩ := exists_core u
      rw [marked, List.append_assoc, ← List.append_assoc (List.replicate j '?'),
        List.replicate_append_replicate] at same
      obtain ⟨alike, rest⟩ := core_cancel core core' ih dotted (dotted'' dotted')
        (ends_marked k stopsR) (ends_marked (j + l) stopsS) same
      obtain ⟨rfl, behind⟩ := marks_cancel stopsR stopsS rest
      exact ⟨by rw [alike, under, Nat.add_comm, Function.iterate_add_apply], behind⟩

/-- Types with dotted names are spelled alike exactly if they are the same but for what aliases in
them stand for, whether or not they have the right numbers of arguments. -/
theorem spelling_unambiguous {t u : TypeExpr} (dotted : t.DottedNames) (dotted' : u.DottedNames) :
    t.spell = u.spell ↔ t.unaliased = u.unaliased := by
  constructor
  · intro same
    have ends : Stops [] := by
      intro c head
      cases head
    have texts : t.text ++ [] = u.text ++ [] := by rw [text, text, same]
    exact ((determined t).cancel dotted dotted' ends ends texts).1
  · intro alike
    rw [← spell_unaliased t, alike, spell_unaliased]

/-- A list of optional keys, where `Dictionary` has one argument too few and `Array` none. -/
theorem spelling_unambiguous_keys :
    let t : TypeExpr := .array (.optional (.generic "Dictionary" [.named "Array"]))
    let u : TypeExpr := .array (.optional (.generic "Dictionary" [⟨"Array", some "Keys.All", []⟩]))
    t.DottedNames ∧ u.DottedNames ∧ t.spell = "[Dictionary<Array>?]" ∧
      u.spell = "[Dictionary<Array>?]" ∧ t.unaliased = u.unaliased := by
  intro t u
  have dotted : t.DottedNames := by decide
  have dotted' : u.DottedNames := by decide
  have spelled : t.spell = "[Dictionary<Array>?]" := by decide
  have spelled' : u.spell = "[Dictionary<Array>?]" := by decide
  exact ⟨dotted, dotted', spelled, spelled',
    (spelling_unambiguous dotted dotted').mp (spelled.trans spelled'.symm)⟩

end SwiftCodec.TypeExpr
