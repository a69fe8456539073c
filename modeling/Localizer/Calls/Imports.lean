import Localizer.Scope.Resolution
/-!
# Imports — the names that stand for the message module

For a module `m` these are the names of

* `const b = require('m')`,
* `const b = __importStar(require('m'))`, the helper being a name or a member,
* `import * as b from 'm'`, and
* `import b = require('m')`.

`require` must not mean a declaration of the script.
-/
namespace Localizer
namespace Calls

open Source

def isRequire (res : Resolution) (moduleName : String) : Expr → Bool
  | .call _ callee [.string _ (some value)] =>
    match callee.unparen with
    | .ident id => id.name == "require" && (res.readBy? id).isNone && value == moduleName
    | _ => false
  | _ => false

def isImportHelper : Expr → Bool
  | .ident id => id.name == "__importStar"
  | .member _ _ property => property == "__importStar"
  | _ => false

/-- **`__importStar(require('m'))`.** -/
def isWrappedRequire (res : Resolution) (moduleName : String) : Expr → Bool
  | .call _ callee [arg] => isImportHelper callee.unparen && isRequire res moduleName arg.unparen
  | _ => false

def importedBinding (res : Resolution) (moduleName : String) : Visit → List Binding
  | .declarator (.init (.ident id) value) =>
    if isRequire res moduleName value.unparen || isWrappedRequire res moduleName value.unparen then
      (res.declaredBy? id).toList
    else []
  | .imports false (some source) names =>
    if source == moduleName then (names.filter (·.whole)).filterMap fun n => res.declaredBy? n.ident else []
  | _ => []

def importedBindings (res : Resolution) (moduleName : String) (visits : List Visit) : List Binding :=
  (visits.flatMap (importedBinding res moduleName)).eraseDups

def importReads (res : Resolution) (bindings : List Binding) : List Nat :=
  bindings.flatMap fun b => (res.readsOf b).map (·.span.lo)

end Calls
end Localizer
