import SwiftCodec.Document.Text

/-!
Settling a declaration. Once its kind is known the rest is read without regard to the member that
gave the kind, wherever among the others it stood.
-/
namespace SwiftCodec

namespace Document

variable {δ β : Type} {standing : Standing} {kind : Kind}

/-! ## The kind -/

theorem Kind.ofText_text (kind : Kind) : Kind.ofText kind.text = .ok kind := by
  cases kind <;> rfl

theorem kindAmong_of_absent {members : List (String × Json)} {seen : Option Kind}
    (absent : ∀ m ∈ members, m.1 ≠ "kind") :
    kindAmong standing seen members = required "kind" seen := by
  induction members with
  | nil => rfl
  | cons m rest ih =>
    obtain ⟨first, others⟩ := List.forall_mem_cons.mp absent
    rw [kindAmong, if_neg first, ih others]

theorem kindAmong_front {members : List (String × Json)}
    (absent : ∀ m ∈ members, m.1 ≠ "kind") :
    kindAmong standing none (("kind", .string kind.text) :: members) = .ok kind := by
  rw [kindAmong, if_pos rfl]
  change once "kind" none (Kind.ofText kind.text) >>= _ = _
  rw [Kind.ofText_text]
  exact kindAmong_of_absent absent

/-! ## The rest -/

/-- What the members of a declaration say once its kind is known. -/
def readBody : Kind → List (String × Json) → Reading Declaration
  | .struct, members => settled ((readStructMembers .inside {} members).map .struct)
  | .enum, members => settled ((readEnumMembers .inside {} members).map asEnum)
  | .typeAlias, members => settled ((readNamedTypeMembers .inside none none members).map asAlias)
  | .extension, members => settled ((readExtensionMembers {} members).map .extension)

/-- What the items behind the kind say. -/
def readBodyItems : Kind → List Json → Reading Declaration
  | .struct, items => settled ((readStructItems .inside items).map .struct)
  | .enum, items => settled ((readEnumItems .inside items).map asEnum)
  | .typeAlias, items => settled ((readNamedTypeItems .inside .typeAlias items).map asAlias)
  | .extension, items => settled ((readExtensionItems .inside items).map .extension)

theorem readDeclaration_object (members : List (String × Json)) :
    readDeclaration standing (.object members) =
      kindAmong standing none members >>= fun kind => readBody kind members := by
  rw [readDeclaration]
  refine congrArg _ (funext fun kind => ?_)
  cases kind <;> rfl

theorem readDeclaration_array (first : Json) (items : List Json) :
    readDeclaration standing (.array (first :: items)) =
      atIndex 0 (readKind standing first) >>= fun kind => readBodyItems kind items := by
  rw [readDeclaration]
  refine congrArg _ (funext fun kind => ?_)
  cases kind <;> rfl

/-- A reader of members, from any draft on, takes no notice of a key. -/
structure Ignores (key : String) (read : δ → List (String × Json) → Reading β) : Prop where
  passes : ∀ d j rest, read d ((key, j) :: rest) = read d rest
  follows : ∀ d k j rest rest', (∀ d', read d' rest = read d' rest') →
    read d ((k, j) :: rest) = read d ((k, j) :: rest')

theorem Ignores.filter {key : String} {read : δ → List (String × Json) → Reading β}
    (ignores : Ignores key read) (members : List (String × Json)) (d : δ) :
    read d (members.filter (·.1 ≠ key)) = read d members := by
  induction members generalizing d with
  | nil => rfl
  | cons m rest ih =>
    obtain ⟨k, j⟩ := m
    by_cases same : k = key
    · subst same
      rw [List.filter_cons_of_neg (by simp), ih, ignores.passes]
    · rw [List.filter_cons_of_pos (by simpa using same)]
      exact ignores.follows d k j _ _ ih

theorem ignores_structMembers : Ignores "kind" (readStructMembers standing) where
  passes d j rest := by simp [readStructMembers]
  follows d k j rest rest' same := by simp only [readStructMembers, same]

theorem ignores_enumMembers : Ignores "kind" (readEnumMembers standing) where
  passes d j rest := by simp [readEnumMembers]
  follows d k j rest rest' same := by simp only [readEnumMembers, same]

theorem ignores_namedTypeMembers (standing : Standing) :
    Ignores "kind" fun d : Option String × Option TypeExpr =>
      readNamedTypeMembers standing d.1 d.2 where
  passes d j rest := by simp [readNamedTypeMembers]
  follows d k j rest rest' same := by
    have same' (name type) : readNamedTypeMembers standing name type rest =
        readNamedTypeMembers standing name type rest' := same (name, type)
    simp only [readNamedTypeMembers, same']

theorem ignores_extensionMembers : Ignores "kind" readExtensionMembers where
  passes d j rest := by simp [readExtensionMembers]
  follows d k j rest rest' same := by simp only [readExtensionMembers, same]

theorem readBody_kind (j : Json) (members : List (String × Json)) :
    readBody kind (("kind", j) :: members) = readBody kind members := by
  cases kind with
  | struct => simp only [readBody, ignores_structMembers.passes]
  | enum => simp only [readBody, ignores_enumMembers.passes]
  | typeAlias =>
    have passes := (ignores_namedTypeMembers .inside).passes (none, none) j members
    exact congrArg (fun r => settled (r.map asAlias)) passes
  | extension => simp only [readBody, ignores_extensionMembers.passes]

theorem readBody_filter (members : List (String × Json)) :
    readBody kind (members.filter (·.1 ≠ "kind")) = readBody kind members := by
  cases kind with
  | struct => simp only [readBody, ignores_structMembers.filter]
  | enum => simp only [readBody, ignores_enumMembers.filter]
  | typeAlias =>
    have same := (ignores_namedTypeMembers .inside).filter members (none, none)
    exact congrArg (fun r => settled (r.map asAlias)) same
  | extension => simp only [readBody, ignores_extensionMembers.filter]

theorem settle_eq {members : List (String × Json)} (absent : ∀ m ∈ members, m.1 ≠ "kind") :
    settle kind members = readBody kind members := by
  unfold settle
  rw [readDeclaration_object, kindAmong_front absent]
  exact readBody_kind _ members

theorem settle_filter (members : List (String × Json)) :
    settle kind (members.filter (·.1 ≠ "kind")) = readBody kind members := by
  rw [settle_eq, readBody_filter]
  intro m member
  simpa using (List.mem_filter.mp member).2

theorem settleItems_eq (items : List Json) : settleItems kind items = readBodyItems kind items := by
  unfold settleItems
  rw [readDeclaration_array]
  change atIndex 0 (Kind.ofText kind.text) >>= _ = _
  rw [Kind.ofText_text]
  rfl

end Document

end SwiftCodec
