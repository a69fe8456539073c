import Localizer.Edit.Document
import Localizer.Calls.Site
/-!
# Analysis — patches, problems and messages of a script

`analyze` numbers the valid calls in source order, collects their keys and messages, and gives the patches that put the
number in place of the key and `null` in place of the message.  Every read of a localize function must be such a call.
A script with problems must not be patched.
-/
namespace Localizer
namespace Calls

open Source
open Text (Position)

structure Analysis where
  patches : List Patch
  problems : List Problem
  bundle : Bundle
  deriving DecidableEq, Repr, Inhabited

def Analysis.empty : Analysis := ⟨[], [], Bundle.empty⟩

def defaultModule : String := "vscode-nls"

/-- **What names of a script mean**: which of them stand for the message module, and which for localize functions. -/
structure Names where
  res : Resolution
  /-- the bindings that stand for the module -/
  imported : List Binding
  reads : List Nat
  /-- the bindings that hold localize functions -/
  bindings : List Binding

def Names.ofVisits (moduleName : String) (visits : List Visit) : Names :=
  let res := Resolution.ofVisits visits
  let imported := importedBindings res moduleName visits
  let reads := importReads res imported
  ⟨res, imported, reads, visits.flatMap (loadedBinding res reads)⟩

def Names.strayReads (names : Names) (visits : List Visit) : List Flaw :=
  let used := (visits.filterMap (boundCallee? names.res names.bindings)).map (·.span.lo)
  names.bindings.flatMap fun b =>
    ((names.res.readsOf b).filter fun ref => !used.contains ref.span.lo).map fun ref =>
      ⟨.reference b.name, ref.span.lo⟩

def sortSites (sites : List Site) : List Site := sites.mergeSort fun a b => Nat.ble a.start b.start

def Names.found (names : Names) (script : Script) (visits : List Visit) : List Site :=
  visits.filterMap (directSite? script names.reads) ++ visits.filterMap (boundSite? script names.res names.bindings)

def Names.sites (names : Names) (script : Script) (visits : List Visit) : List Site :=
  sortSites (names.found script visits)

/-- **Take the sites in order**: a valid one gets the next number and two patches, another one is a flaw. -/
def takeSites (script : Script) : List Site → Bundle → List Patch × List Flaw × Bundle
  | [], bundle => ([], [], bundle)
  | site :: sites, bundle =>
    match site.outcome with
    | .ok entry =>
      let (patches, flaws, final) := takeSites script sites (bundle.push entry.key entry.message)
      (⟨script.region entry.keySpan, (toString bundle.messages.length).toList⟩ ::
        ⟨script.region entry.messageSpan, "null".toList⟩ :: patches, flaws, final)
    | .error flaw =>
      let (patches, flaws, final) := takeSites script sites bundle
      (patches, flaw :: flaws, final)

def sortProblems (problems : List Problem) : List Problem := problems.mergeSort fun a b => a.position.upTo b.position

/-- **Find the localize calls of a script.**  `relative` is its path for load calls without arguments. -/
def analyze (script : Script) (relative : Option (List Char)) (moduleName : String) : Analysis :=
  let visits := script.program.visits
  let names := Names.ofVisits moduleName visits
  if names.imported.isEmpty then .empty
  else
    let loadPatches := (visits.filterMap (emptyLoad? script names.reads)).map fun between =>
      ⟨script.region between, fileReference relative⟩
    let (sitePatches, flaws, bundle) := takeSites script (names.sites script visits) .empty
    let problems := (names.strayReads visits ++ flaws).map fun flaw => ⟨flaw.fault, script.position flaw.offset⟩
    ⟨loadPatches ++ sitePatches, sortProblems problems, bundle⟩

end Calls
end Localizer
