import ClassDiagram.Extraction
import ClassDiagram.Files.Path
import ClassDiagram.Model.Basic
import ClassDiagram.Resolution

/-!
# Batches

A batch of source files becomes one model. Each file has one outcome: its class is accepted, or
the file is rejected with a warning. Relationships are resolved afterwards, against the names of
all accepted classes. No file makes a batch fail; settings that allow no file do.
-/

namespace ClassDiagram

/-- The text of a source file, or why there is none. -/
inductive SourceContent
  | loaded (text : String)
  | unavailable (reason : String)
deriving DecidableEq

/-- A source file. Its language is that of its path unless one is given. -/
structure SourceFile where
  id : String
  content : SourceContent
  givenLanguage : Option Language
deriving DecidableEq

/-- The language a file is read in. -/
def SourceFile.language? (file : SourceFile) : Option Language :=
  file.givenLanguage.or (Path.language? file.id)

/-- Why a file is rejected. -/
inductive Warning
  | unavailable (id reason : String)
  | unsupportedExtension (id : String)
  | tooLarge (id : String) (bytes limit : Nat)
  | noClassFound (id : String)
  | duplicateClass (id name first : String)
deriving DecidableEq

namespace Warning

/-- The file a warning is about. -/
def id : Warning → String
  | unavailable id _ | unsupportedExtension id | tooLarge id _ _ | noClassFound id
  | duplicateClass id _ _ => id

/-- The wording of a warning. -/
def message : Warning → String
  | unavailable id reason => id ++ ": source unavailable (" ++ reason ++ ")"
  | unsupportedExtension id => id ++ ": unsupported file extension"
  | tooLarge id bytes limit =>
    id ++ ": source is " ++ toString bytes ++ " bytes, limit is " ++ toString limit
  | noClassFound id => id ++ ": no class declaration recognized"
  | duplicateClass id name first =>
    id ++ ": class '" ++ name ++ "' already declared in " ++ first

end Warning

/-- How a batch is read. -/
structure BatchSettings where
  mode : ExtractionMode
  /-- Files with more bytes are rejected. -/
  maxSourceBytes : Nat
deriving DecidableEq

namespace BatchSettings

/-- The settings used where none are given: whole signatures, and files of up to one mebibyte. -/
def default : BatchSettings := ⟨.default, 1024 * 1024⟩

/-- A limit of zero bytes is refused. -/
def validate (settings : BatchSettings) : Except Failure Unit :=
  if settings.maxSourceBytes = 0 then .error (.invalidSettings .noSourceBytes) else .ok ()

end BatchSettings

/-- A file whose class is accepted. -/
structure Accepted where
  id : String
  text : String
  language : Language
  record : ClassRecord
deriving DecidableEq

namespace Batch

/-- The outcome of a file after the accepted files `earlier`. The checks are made in this order:
that there is a text, a language, no more bytes than the limit, a class, and a new name. -/
def outcome (settings : BatchSettings) (earlier : List Accepted) (file : SourceFile) :
    Except Warning Accepted :=
  match file.content with
  | .unavailable reason => .error (.unavailable file.id reason)
  | .loaded text =>
    match file.language? with
    | none => .error (.unsupportedExtension file.id)
    | some language =>
      if settings.maxSourceBytes < text.utf8ByteSize then
        .error (.tooLarge file.id text.utf8ByteSize settings.maxSourceBytes)
      else
        let record := extract settings.mode language text.toList
        if !record.isUsable then .error (.noClassFound file.id)
        else
          match earlier.find? (·.record.name = record.name) with
          | some first => .error (.duplicateClass file.id record.name first.id)
          | none => .ok ⟨file.id, text, language, record⟩

/-- The outcomes of files after the accepted files `earlier`, one for each file. -/
def outcomes (settings : BatchSettings) (earlier : List Accepted) :
    List SourceFile → List (Except Warning Accepted)
  | [] => []
  | file :: files =>
    let result := outcome settings earlier file
    result :: outcomes settings (result.toOption.toList ++ earlier) files

/-- The accepted files among outcomes. -/
def accepted (results : List (Except Warning Accepted)) : List Accepted :=
  results.filterMap fun
    | .ok a => some a
    | .error _ => none

/-- The warnings among outcomes. -/
def warnings (results : List (Except Warning Accepted)) : List Warning :=
  results.filterMap fun
    | .ok _ => none
    | .error w => some w

/-- The relationships of an accepted file. -/
def relationships (known : String → Bool) (file : Accepted) : List Relationship :=
  resolve file.language file.text.toList file.record.name known

/-- The model of accepted files. -/
def modelOf (files : List Accepted) : Model :=
  let named := Model.empty.addClasses (files.map (·.record))
  named.addRelationships (files.flatMap (relationships named.contains))

end Batch

/-- The model of a batch, and a warning for each rejected file. -/
structure Assembly where
  model : Model
  warnings : List Warning

/-- Assembles a batch. -/
def assemble (settings : BatchSettings) (files : List SourceFile) : Except Failure Assembly := do
  settings.validate
  let results := Batch.outcomes settings [] files
  return ⟨Batch.modelOf (Batch.accepted results), Batch.warnings results⟩

/-- The name of the first class of an assembly. -/
def Assembly.firstClass? (assembly : Assembly) : Option String :=
  assembly.model.classes[0]?.map (·.name)

end ClassDiagram
