import Localizer.Proofs.Sites
/-!
# Shadowing — names that are declared again

A region is any part of a script.  What a name in it means is declared outside the region exactly if no scope of the
region around the name declares it (`Calls.reads_outside_iff`).  So a function, a block, the head of a loop and a
handler shadow what they declare: a call through such a name is no call of a localize function from outside, and the
name is not reported.  The cases of a `switch` are no scope, and a block of a class is none for its variables, so names
that are declared again there still mean what is outside.
-/
namespace Localizer

open Source

namespace Source.Program

variable {p : Program} {region place : Address} {id : Ident} {b : Binding}

end Source.Program

namespace Calls

-- the cases of a `switch` are no scope: the same call in one of them is numbered
example : (match Script.parse "a.js"
      "var n=require('m'),l=n.loadMessageBundle();switch(0)\x7bcase 0:let l;l('a','A')\x7d".toList with
    | .ok script =>
      let names := namesOf script.program "m"
      decide (((names.found script script.program.visits).filterMap Site.accepted?).map (·.message) = ["A"])
    | .error _ => false) = true := by decide +kernel

end Calls
end Localizer
