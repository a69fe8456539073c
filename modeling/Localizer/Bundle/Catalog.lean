import Localizer.Files.Path
import Localizer.Text.Comments
import Localizer.Text.Basic
import Localizer.Bundle.Localize
import Localizer.Json.Decode
/-!
# Catalog — files with the messages of a language

Such a file is an object of texts, in which comments may stand.  Anything else counts as no file at all.
-/
namespace Localizer
namespace Catalog

/-- **Where the catalog for a file stands**: under the root, the language's folder and perhaps a component's. -/
def path (root folder : String) (component : Option String) (file : String) : String :=
  let languagePath := Path.join root folder
  let folderPath := match component with
    | some c => if c.isEmpty then languagePath else Path.join languagePath c
    | none => languagePath
  Path.join folderPath (file ++ ".i18n.json")

def dropMarks (cs : List Char) : List Char := cs.dropWhile fun c => c.toNat == 0xFEFF

/-- **The catalog that a text writes.**  Members that are no texts do not count. -/
def ofText (cs : List Char) : Option Catalog :=
  let stripped := Text.stripComments (dropMarks cs)
  if (Text.trim stripped).isEmpty then none
  else
    match Json.read stripped with
    | some (.object members) =>
      some ((Table.sort members).filterMap fun m => m.2.string?.map (m.1, ·))
    | _ => none

end Catalog
end Localizer
