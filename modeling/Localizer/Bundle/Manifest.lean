import Localizer.Table
import Localizer.Digest.Sha256
import Localizer.Bundle.Record
/-!
# Manifest — the bundles of all scripts

Each script with messages gives one file, a bundle with the script's path.  The manifest holds them sorted by path, the
last one for each, and its header says where it belongs and carries a fingerprint of its contents.
-/
namespace Localizer

structure BundleFile where
  bundle : Bundle
  /-- the script's path without extension -/
  path : String
  deriving DecidableEq, Repr, Inhabited

namespace BundleFile

def toJson (f : BundleFile) : Json :=
  .object [("messages", Json.ofStrings f.bundle.messages), ("keys", .array (f.bundle.keys.map Key.toJson)),
    ("filePath", .string f.path)]

def ofJson (v : Json) : Option BundleFile := do
  match ← Json.fieldsOrElements? ["messages", "keys", "filePath"] v with
  | [messages, keys, path] =>
    let messages ← Json.required? (Json.list? Json.string?) messages
    let keys ← Json.required? (Json.list? Key.ofJson) keys
    let path ← Json.required? Json.string? path
    return ⟨⟨messages, keys⟩, path⟩
  | _ => none

end BundleFile

abbrev Manifest := List (String × Bundle)

namespace Manifest

def empty : Manifest := []

/-- **A manifest with one more file**, in place of one with the same path. -/
def add (m : Manifest) (f : BundleFile) : Manifest := Table.insert f.path f.bundle m

def toJson (m : Manifest) : Json := .object (m.map fun p => (p.1, p.2.toJson))

def ofJson (v : Json) : Option Manifest :=
  match v with
  | .object members => (members.mapM fun m => (Bundle.ofJson m.2).map (m.1, ·)).map Table.sort
  | _ => none

def field (s : String) : List UInt8 := s.toUTF8.toList ++ [0]

/-- **The bytes that a fingerprint is taken of**: for each path the path, its keys and its messages. -/
def stream (m : Manifest) : List UInt8 :=
  m.flatMap fun p => field p.1 ++ (p.2.keys.flatMap fun k => field k.name) ++ p.2.messages.flatMap field

def fingerprint (m : Manifest) : String := Sha256.hexHash m.stream

structure Header where
  id : String
  kind : String
  hash : String
  outDir : String
  deriving DecidableEq, Repr, Inhabited

def bundleKind : String := "extensionBundle"

def header (m : Manifest) (id outDir : String) : Header := ⟨id, bundleKind, m.fingerprint, outDir⟩

def Header.toJson (h : Header) : Json :=
  .object [("id", .string h.id), ("type", .string h.kind), ("hash", .string h.hash), ("outDir", .string h.outDir)]

end Manifest
end Localizer
