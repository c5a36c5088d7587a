import Stagecraft.Quality.Rule

/-!
The verdict on a vignette: a bucket, which depends only on how many rules of each severity apply,
and the fixes of those rules.
-/

namespace Stagecraft

/-- Buckets from good to bad. -/
inductive Bucket where
  | good
  | minorIssues
  | needsFixes
  | needsRework
  deriving DecidableEq, Repr

namespace Bucket

def all : List Bucket := [good, minorIssues, needsFixes, needsRework]

def label : Bucket → String
  | good => "GOOD"
  | minorIssues => "MINOR_ISSUES"
  | needsFixes => "NEEDS_FIXES"
  | needsRework => "NEEDS_REWORK"

def rank : Bucket → Nat
  | good => 0
  | minorIssues => 1
  | needsFixes => 2
  | needsRework => 3

instance : LE Bucket := ⟨fun a b => a.rank ≤ b.rank⟩

/-- The buckets whose speech fixes are applied. -/
def isFixable (bucket : Bucket) : Bool := bucket == needsFixes || bucket == needsRework

def ofCounts (high medium : Int) : Bucket :=
  if 2 ≤ high then needsRework
  else if high = 1 ∨ 3 ≤ medium then needsFixes
  else if 1 ≤ medium then minorIssues
  else good

end Bucket

/-- The rules that apply, in their order. -/
def hits (rules : List Rule) (scene : Scene) : Except Misuse (List Rule) :=
  match rules with
  | [] => .ok []
  | rule :: rest => do
    let applies ← rule.applies scene
    let others ← hits rest scene
    return if applies then rule :: others else others

def severityCount (severity : Severity) (rules : List Rule) : Nat :=
  rules.countP fun rule => rule.severity == severity

def bucketOfHits (matched : List Rule) : Bucket :=
  .ofCounts (severityCount .high matched) (severityCount .medium matched)

def score (rules : List Rule) (scene : Scene) : Except Misuse Bucket :=
  (hits rules scene).map bucketOfHits

structure Report where
  bucket : Bucket
  hits : List String
  fixes : List Fix

def suggestFixes (chooser : Chooser) (scene : Scene) : List Rule → Except Misuse (List Fix)
  | [] => .ok []
  | rule :: rest => do
    let first ← rule.fixes chooser scene
    let others ← suggestFixes chooser scene rest
    return first ++ others

def evaluate (rules : List Rule) (chooser : Chooser) (vignette : Vignette) :
    Except Misuse Report := do
  let scene := Scene.ofVignette vignette
  let matched ← hits rules scene
  let fixes ← suggestFixes chooser scene matched
  return ⟨bucketOfHits matched, matched.map (·.name), fixes⟩

end Stagecraft
