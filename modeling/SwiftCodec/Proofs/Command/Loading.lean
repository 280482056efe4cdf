import SwiftCodec.Command.Load
import SwiftCodec.Files.Tree
import SwiftCodec.Proofs.Defect.Traversal

/-!
What inputs come to on a tree of files. Either every pattern leads to files and every file to valid
documents, and then these are loaded in order, or something is in the way, wherever among the inputs
it is, and then nothing is loaded.
-/
namespace SwiftCodec

namespace Inquiry

instance : LawfulMonad Inquiry := by
  refine LawfulMonad.mk' Inquiry ?_ (fun _ _ => rfl) ?_
  · intro α q
    change q.bind (fun a => .done a) = q
    induction q with
    | done => rfl
    | read _ _ ih | kind _ _ ih | list _ _ ih => simp only [bind, ih]
  · intro α β γ q f g
    change (q.bind f).bind g = q.bind fun a => (f a).bind g
    induction q with
    | done => rfl
    | read _ _ ih | kind _ _ ih | list _ _ ih => simp only [bind, ih]

/-- An inquiry goes on from what the one before it has found out. -/
theorem answer_bind {α β : Type} (t : Tree) (q : Inquiry α) (f : α → Inquiry β) :
    (q >>= f).answer t = (f (q.answer t)).answer t := by
  change (q.bind f).answer t = _
  induction q with
  | done => rfl
  | read path _ ih => exact ih (t.readText path)
  | kind path _ ih => exact ih (t.kind? path)
  | list path _ ih => exact ih (t.list path)

end Inquiry

namespace Command

variable {t : Tree}

namespace Loading

variable {α β : Type}

/-- What loading comes to on a tree of files. -/
def outcome (x : Loading α) (t : Tree) : Except Failure α := Inquiry.answer t x.run

theorem outcome_lift (q : Inquiry α) : outcome (liftM q) t = .ok (q.answer t) :=
  Inquiry.answer_bind t q fun a => .done (Except.ok a)

theorem outcome_bind (x : Loading α) (f : α → Loading β) :
    outcome (x >>= f) t = x.outcome t >>= fun a => (f a).outcome t := by
  refine (Inquiry.answer_bind t x.run _).trans ?_
  unfold outcome
  cases Inquiry.answer t x.run <;> rfl

theorem outcome_mapM (f : α → Loading β) (as : List α) :
    outcome (as.mapM f) t = as.mapM fun a => (f a).outcome t := by
  induction as with
  | nil => rfl
  | cons a as ih =>
    rw [List.mapM_cons, List.mapM_cons, outcome_bind]
    congr 1
    funext b
    rw [outcome_bind, ih]
    rfl

end Loading

open Loading

/-! ## Patterns -/

/-- The paths that a pattern stands for. -/
inductive StandsFor (t : Tree) (pattern : String) : List String → Prop where
  | path (plain : ¬ hasWildcard pattern) : StandsFor t pattern [pattern]
  | found {finding : Glob.Finding} {paths : List String} (wild : hasWildcard pattern)
      (parsed : Glob.paths pattern = .ok finding) (found : finding.answer t = .ok paths)
      (any : paths ≠ []) : StandsFor t pattern paths

/-- A pattern that stands for nothing. -/
inductive Unresolved (t : Tree) (pattern : String) : Prop where
  | noPattern {e : PatternError} (wild : hasWildcard pattern)
      (failed : Glob.paths pattern = .error e)
  | unreadable {finding : Glob.Finding} {e : Glob.Unreadable} (wild : hasWildcard pattern)
      (parsed : Glob.paths pattern = .ok finding) (failed : finding.answer t = .error e)
  | noMatch {finding : Glob.Finding} (wild : hasWildcard pattern)
      (parsed : Glob.paths pattern = .ok finding) (none : finding.answer t = .ok [])

theorem resolve_plain {pattern : String} (plain : ¬ hasWildcard pattern) :
    (resolve pattern).outcome t = .ok [pattern] := by
  unfold resolve
  rw [if_pos (by simpa using plain)]
  rfl

theorem resolve_refused {pattern : String} {e : PatternError} (wild : hasWildcard pattern)
    (failed : Glob.paths pattern = .error e) :
    (resolve pattern).outcome t = .error (.badPattern e) := by
  unfold resolve
  rw [if_neg (by simpa using wild), failed]
  rfl

theorem resolve_wild {pattern : String} {finding : Glob.Finding} (wild : hasWildcard pattern)
    (parsed : Glob.paths pattern = .ok finding) :
    (resolve pattern).outcome t =
      match finding.answer t with
      | .error e => .error (.unreadableDirectory e)
      | .ok [] => .error (.noMatch pattern)
      | .ok paths => .ok paths := by
  unfold resolve
  rw [if_neg (by simpa using wild), parsed]
  dsimp only
  rw [outcome_bind, outcome_lift]
  change outcome _ t = _
  generalize finding.answer t = found
  match found with
  | .error _ | .ok [] | .ok (_ :: _) => rfl

theorem resolve_eq_ok {pattern : String} {paths : List String} :
    (resolve pattern).outcome t = .ok paths ↔ StandsFor t pattern paths := by
  constructor
  · intro resolved
    by_cases wild : hasWildcard pattern
    · cases parsed : Glob.paths pattern with
      | error e => cases (resolve_refused wild parsed).symm.trans resolved
      | ok finding =>
        rw [resolve_wild wild parsed] at resolved
        split at resolved
        · cases resolved
        · cases resolved
        · rename_i any found
          cases resolved
          exact .found wild parsed found any
    · cases (resolve_plain wild).symm.trans resolved
      exact .path wild
  · rintro (plain | ⟨wild, parsed, found, any⟩)
    · exact resolve_plain plain
    · rw [resolve_wild wild parsed, found]
      cases paths with
      | nil => contradiction
      | cons => rfl

theorem resolve_fails {pattern : String} :
    Fails ((resolve pattern).outcome t) ↔ Unresolved t pattern := by
  constructor
  · rintro ⟨f, failed⟩
    by_cases wild : hasWildcard pattern
    · cases parsed : Glob.paths pattern with
      | error e => exact .noPattern wild parsed
      | ok finding =>
        rw [resolve_wild wild parsed] at failed
        split at failed
        · rename_i unreadable
          exact .unreadable wild parsed unreadable
        · rename_i none
          exact .noMatch wild parsed none
        · cases failed
    · cases (resolve_plain wild).symm.trans failed
  · rintro (⟨wild, refused⟩ | ⟨wild, parsed, unreadable⟩ | ⟨wild, parsed, none⟩)
    · exact ⟨_, resolve_refused wild refused⟩
    · exact ⟨_, by rw [resolve_wild wild parsed, unreadable]⟩
    · exact ⟨_, by rw [resolve_wild wild parsed, none]⟩

/-! ## Files -/

variable {filtering : Filtering}

/-- The source files that a file holds: its text is a document, or a filter makes documents from the
value in it. All of them are valid. -/
inductive Holds (filtering : Filtering) (t : Tree) (path : String) :
    Option String → List SourceFile → Prop where
  | document {text : String} {file : SourceFile} (read : t.readText path = .ok text)
      (form : SourceFile.ofText text = .ok file) (valid : file.validate = .ok ()) :
      Holds filtering t path none [file]
  | outputs {filter text : String} {whole : Json} {values : List Json} {files : List SourceFile}
      (read : t.readText path = .ok text) (parsed : Json.parse text = .ok whole)
      (filtered : filtering filter whole.unrepeated = .ok values)
      (forms : List.Forall₂ (fun v file => SourceFile.ofJson v = .ok file) values files)
      (valid : ∀ file ∈ files, file.validate = .ok ()) : Holds filtering t path (some filter) files

/-- A file that cannot be used. -/
inductive Unusable (filtering : Filtering) (t : Tree) (path : String) : Option String → Prop where
  | unreadable {filter : Option String} {e : FileError} (failed : t.readText path = .error e) :
      Unusable filtering t path filter
  | noDocument {text : String} {f : TextFailure} (read : t.readText path = .ok text)
      (failed : SourceFile.ofText text = .error f) : Unusable filtering t path none
  | invalid {text : String} {file : SourceFile} {d : Defect} (read : t.readText path = .ok text)
      (form : SourceFile.ofText text = .ok file) (failed : file.validate = .error d) :
      Unusable filtering t path none
  | notJson {filter text : String} {f : Fault} (read : t.readText path = .ok text)
      (failed : Json.parse text = .error f) : Unusable filtering t path (some filter)
  | filterFails {filter text : String} {whole : Json} {f : FilterFailure}
      (read : t.readText path = .ok text) (parsed : Json.parse text = .ok whole)
      (failed : filtering filter whole.unrepeated = .error f) :
      Unusable filtering t path (some filter)
  | outputNoDocument {filter text : String} {whole v : Json} {values : List Json}
      {f : SwiftCodec.Failure} (read : t.readText path = .ok text)
      (parsed : Json.parse text = .ok whole)
      (filtered : filtering filter whole.unrepeated = .ok values) (output : v ∈ values)
      (failed : SourceFile.ofJson v = .error f) : Unusable filtering t path (some filter)
  | outputInvalid {filter text : String} {whole v : Json} {values : List Json} {file : SourceFile}
      {d : Defect} (read : t.readText path = .ok text) (parsed : Json.parse text = .ok whole)
      (filtered : filtering filter whole.unrepeated = .ok values) (output : v ∈ values)
      (form : SourceFile.ofJson v = .ok file) (failed : file.validate = .error d) :
      Unusable filtering t path (some filter)

/-- Reading the documents in a text; whether they are valid has still to be seen. -/
def readDocuments (filtering : Filtering) (filter : Option String) (path text : String) :
    Except Failure (List SourceFile) :=
  match filter with
  | none => (SourceFile.ofText text).mapError (.textForm path) >>= fun file => pure [file]
  | some filter =>
    (Json.parse text).mapError (.notJson path) >>= fun whole =>
      (filtering filter whole.unrepeated).mapError (.filter path) >>= fun values =>
        values.mapM fun v => (SourceFile.ofJson v).mapError (.valueForm path)

theorem sourceFiles_eq (filter : Option String) (path text : String) :
    sourceFiles filtering filter path text =
      readDocuments filtering filter path text >>= fun files =>
        (files.forM fun file => file.validate.mapError (Failure.invalid path file.filename)) >>=
          fun _ => .ok files := by
  cases filter <;> simp only [sourceFiles, readDocuments, bind_assoc, pure_bind] <;> rfl

theorem loadFile_eq (filter : Option String) (path : String) :
    (loadFile filtering filter path).outcome t =
      (t.readText path).mapError (.unreadable path) >>= fun text =>
        sourceFiles filtering filter path text >>= fun files => .ok (files.map (⟨path, ·⟩)) := by
  unfold loadFile
  rw [outcome_bind, outcome_lift]
  change outcome _ t = _
  cases read : t.readText path with
  | error e =>
    rw [show (Inquiry.readText path).answer t = .error e from read]
    rfl
  | ok text =>
    rw [show (Inquiry.readText path).answer t = .ok text from read]
    change outcome _ t = sourceFiles filtering filter path text >>= _
    dsimp only
    cases sourceFiles filtering filter path text <;> rfl

theorem readDocuments_eq_ok {path text : String} {files : List SourceFile} :
    readDocuments filtering none path text = .ok files ↔
      ∃ file, SourceFile.ofText text = .ok file ∧ files = [file] := by
  simp only [readDocuments, bind_eq_ok, mapError_eq_ok, pure, Except.pure, Except.ok.injEq]
  exact exists_congr fun file => and_congr_right fun _ => eq_comm

theorem readDocuments_filter_eq_ok {filter path text : String} {files : List SourceFile} :
    readDocuments filtering (some filter) path text = .ok files ↔
      ∃ whole values, Json.parse text = .ok whole ∧
        filtering filter whole.unrepeated = .ok values ∧
        List.Forall₂ (fun v file => SourceFile.ofJson v = .ok file) values files := by
  simp only [readDocuments, bind_eq_ok, mapError_eq_ok, mapM_eq_ok, exists_and_left]

theorem readDocuments_fails {path text : String} :
    Fails (readDocuments filtering none path text) ↔ Fails (SourceFile.ofText text) := by
  exact fails_bind_ok.trans fails_mapError

theorem readDocuments_filter_fails {filter path text : String} :
    Fails (readDocuments filtering (some filter) path text) ↔
      Fails (Json.parse text) ∨ ∃ whole, Json.parse text = .ok whole ∧
        (Fails (filtering filter whole.unrepeated) ∨
          ∃ values, filtering filter whole.unrepeated = .ok values ∧
            ∃ v ∈ values, Fails (SourceFile.ofJson v)) := by
  simp only [readDocuments, fails_bind, fails_mapError, mapError_eq_ok, fails_mapM]

theorem sourceFiles_eq_ok {filter : Option String} {path text : String} {files : List SourceFile} :
    sourceFiles filtering filter path text = .ok files ↔
      readDocuments filtering filter path text = .ok files ∧
        ∀ file ∈ files, file.validate = .ok () := by
  rw [sourceFiles_eq, bind_eq_ok]
  simp only [check_eq_ok, forM_eq_ok, mapError_eq_ok, Except.ok.injEq]
  constructor
  · rintro ⟨files, read, valid, rfl⟩
    exact ⟨read, valid⟩
  · rintro ⟨read, valid⟩
    exact ⟨files, read, valid, rfl⟩

theorem sourceFiles_fails {filter : Option String} {path text : String} :
    Fails (sourceFiles filtering filter path text) ↔
      Fails (readDocuments filtering filter path text) ∨
        ∃ files, readDocuments filtering filter path text = .ok files ∧
          ∃ file ∈ files, Fails file.validate := by
  rw [sourceFiles_eq, fails_bind]
  refine or_congr_right (exists_congr fun files => and_congr_right fun _ => ?_)
  simp only [fails_bind_ok, fails_forM, fails_mapError]

theorem loadFile_eq_ok {filter : Option String} {path : String} {documents : List Document} :
    (loadFile filtering filter path).outcome t = .ok documents ↔
      ∃ files, Holds filtering t path filter files ∧ documents = files.map (⟨path, ·⟩) := by
  rw [loadFile_eq]
  simp only [bind_eq_ok, mapError_eq_ok, sourceFiles_eq_ok, Except.ok.injEq]
  constructor
  · rintro ⟨text, read, files, ⟨form, valid⟩, rfl⟩
    refine ⟨files, ?_, rfl⟩
    cases filter with
    | none =>
      obtain ⟨file, whole, rfl⟩ := readDocuments_eq_ok.mp form
      exact .document read whole (valid file (List.mem_singleton_self file))
    | some filter =>
      obtain ⟨whole, values, parsed, filtered, forms⟩ := readDocuments_filter_eq_ok.mp form
      exact .outputs read parsed filtered forms valid
  · rintro ⟨files, holds, rfl⟩
    cases holds with
    | @document text file read form valid =>
      have documents : readDocuments filtering none path text = .ok [file] :=
        readDocuments_eq_ok.mpr ⟨file, form, rfl⟩
      exact ⟨text, read, [file], ⟨documents, List.forall_mem_singleton.mpr valid⟩, rfl⟩
    | @outputs filter text whole values _ read parsed filtered forms valid =>
      exact ⟨text, read, files,
        ⟨readDocuments_filter_eq_ok.mpr ⟨whole, values, parsed, filtered, forms⟩, valid⟩, rfl⟩

theorem loadFile_fails {filter : Option String} {path : String} :
    Fails ((loadFile filtering filter path).outcome t) ↔ Unusable filtering t path filter := by
  rw [loadFile_eq, fails_bind, fails_mapError]
  simp only [mapError_eq_ok, fails_bind_ok, sourceFiles_fails]
  constructor
  · rintro (⟨e, unreadable⟩ | ⟨text, read, failed | ⟨files, form, h⟩⟩)
    · exact .unreadable unreadable
    · cases filter with
      | none =>
        obtain ⟨f, failed⟩ := readDocuments_fails.mp failed
        exact .noDocument read failed
      | some filter =>
        rcases readDocuments_filter_fails.mp failed with
          ⟨f, failed⟩ | ⟨whole, parsed, ⟨f, failed⟩ | ⟨values, filtered, v, output, f, failed⟩⟩
        · exact .notJson read failed
        · exact .filterFails read parsed failed
        · exact .outputNoDocument read parsed filtered output failed
    · obtain ⟨file, member, d, failed⟩ := h
      cases filter with
      | none =>
        obtain ⟨file', whole, rfl⟩ := readDocuments_eq_ok.mp form
        obtain rfl := List.mem_singleton.mp member
        exact .invalid read whole failed
      | some filter =>
        obtain ⟨whole, values, parsed, filtered, forms⟩ := readDocuments_filter_eq_ok.mp form
        obtain ⟨v, output, read'⟩ := exists_of_forall₂ forms.flip member
        exact .outputInvalid read parsed filtered output read' failed
  · intro unusable
    cases unusable with
    | unreadable failed => exact .inl ⟨_, failed⟩
    | noDocument read failed =>
      exact .inr ⟨_, read, .inl (readDocuments_fails.mpr ⟨_, failed⟩)⟩
    | @invalid text file _ read form failed =>
      have documents : readDocuments filtering none path text = .ok [file] :=
        readDocuments_eq_ok.mpr ⟨file, form, rfl⟩
      exact .inr ⟨text, read, .inr ⟨_, documents, file, List.mem_singleton_self file, _, failed⟩⟩
    | notJson read failed =>
      exact .inr ⟨_, read, .inl (readDocuments_filter_fails.mpr (.inl ⟨_, failed⟩))⟩
    | filterFails read parsed failed =>
      exact .inr ⟨_, read, .inl (readDocuments_filter_fails.mpr
        (.inr ⟨_, parsed, .inl ⟨_, failed⟩⟩))⟩
    | outputNoDocument read parsed filtered output failed =>
      exact .inr ⟨_, read, .inl (readDocuments_filter_fails.mpr
        (.inr ⟨_, parsed, .inr ⟨_, filtered, _, output, _, failed⟩⟩))⟩
    | @outputInvalid _ text _ _ _ _ _ read parsed filtered output form failed =>
      refine .inr ⟨text, read, (ok_or_fails _).symm.imp_right fun ⟨files, documents⟩ => ?_⟩
      obtain ⟨whole', values', parsed', filtered', forms⟩ :=
        readDocuments_filter_eq_ok.mp documents
      cases parsed.symm.trans parsed'
      cases filtered.symm.trans filtered'
      obtain ⟨file', member, form'⟩ := exists_of_forall₂ forms output
      cases form.symm.trans form'
      exact ⟨files, documents, _, member, _, failed⟩

/-! ## Inputs -/

/-- The documents that inputs come to: those of the files of each pattern, in the order of the
patterns, of the paths of a pattern and of the documents in a file. -/
def Loads (filtering : Filtering) (t : Tree) (inputs : Inputs) (documents : List Document) :
    Prop :=
  ∃ paths parts,
    List.Forall₂ (StandsFor t) inputs.patterns paths ∧
    List.Forall₂
      (fun path part =>
        ∃ files, Holds filtering t path inputs.filter files ∧ part = files.map (⟨path, ·⟩))
      paths.flatten parts ∧
    documents = parts.flatten

/-- Something is wrong with one of the inputs. -/
inductive Blocked (filtering : Filtering) (t : Tree) (inputs : Inputs) : Prop where
  | pattern {pattern : String} (asked : pattern ∈ inputs.patterns)
      (failed : Unresolved t pattern)
  | file {pattern path : String} {paths : List String} (asked : pattern ∈ inputs.patterns)
      (stands : StandsFor t pattern paths) (member : path ∈ paths)
      (failed : Unusable filtering t path inputs.filter)

theorem load_eq (inputs : Inputs) :
    (load filtering inputs).outcome t =
      (inputs.patterns.mapM fun p => (resolve p).outcome t) >>= fun paths =>
        (paths.flatten.mapM fun path => (loadFile filtering inputs.filter path).outcome t) >>=
          fun parts => .ok parts.flatten := by
  unfold load
  rw [outcome_bind, outcome_mapM]
  congr 1
  funext paths
  rw [outcome_bind, outcome_mapM]
  rfl

theorem load_eq_ok {inputs : Inputs} {documents : List Document} :
    (load filtering inputs).outcome t = .ok documents ↔ Loads filtering t inputs documents := by
  simp only [load_eq, bind_eq_ok, mapM_eq_ok, resolve_eq_ok, loadFile_eq_ok, Except.ok.injEq]
  constructor
  · rintro ⟨paths, stand, parts, hold, rfl⟩
    exact ⟨paths, parts, stand, hold, rfl⟩
  · rintro ⟨paths, parts, stand, hold, rfl⟩
    exact ⟨paths, stand, parts, hold, rfl⟩

/-- Whatever is wrong with one of the inputs, nothing is loaded. -/
theorem load_fails {inputs : Inputs} :
    Fails ((load filtering inputs).outcome t) ↔ Blocked filtering t inputs := by
  rw [load_eq, fails_bind, fails_mapM]
  simp only [fails_bind_ok, fails_mapM, resolve_fails, loadFile_fails]
  constructor
  · rintro (⟨pattern, asked, failed⟩ | ⟨paths, resolved, path, member, failed⟩)
    · exact .pattern asked failed
    · obtain ⟨some, present, member⟩ := List.mem_flatten.mp member
      obtain ⟨pattern, asked, stands⟩ := exists_of_forall₂ (mapM_eq_ok.mp resolved).flip present
      exact .file asked (resolve_eq_ok.mp stands) member failed
  · rintro (⟨asked, failed⟩ | ⟨asked, stands, member, failed⟩)
    · exact .inl ⟨_, asked, failed⟩
    · rcases ok_or_fails (inputs.patterns.mapM fun p => (resolve p).outcome t) with
        ⟨paths, resolved⟩ | failed'
      · obtain ⟨found, present, stands'⟩ := exists_of_forall₂ (mapM_eq_ok.mp resolved) asked
        cases (resolve_eq_ok.mpr stands).symm.trans stands'
        exact .inr ⟨paths, resolved, _, List.mem_flatten.mpr ⟨_, present, member⟩, failed⟩
      · -- Patterns come before files, so another pattern is met first.
        obtain ⟨pattern, asked', unresolved⟩ := fails_mapM.mp failed'
        exact .inl ⟨pattern, asked', resolve_fails.mp unresolved⟩

end Command

end SwiftCodec
