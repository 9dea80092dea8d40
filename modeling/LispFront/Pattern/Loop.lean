import LispFront.Pattern.Basic

/-! A loop restarts with new values for its names, so its names have to be plain. A loop over
patterns becomes a loop over fresh names, inside of a `let` for the first values and around a `let`
that takes the values apart in every round: `(loop [[a b] v n 0] body)` is
`(let [t v [a b] t n 0] (loop [t t n n] (let [[a b] t] body)))`. -/

namespace LispFront.Pattern

/-- The three binding vectors of a lowered loop. -/
structure LoopHeader where
  outer : List Form := []
  names : List Form := []
  inner : List Form := []

def loopHeader : List (Form × Form) → NameM LoopHeader
  | [] => pure {}
  | (pattern, init) :: rest =>
    if isSimple pattern then do
      let header ← loopHeader rest
      pure {
        outer := pattern :: init :: header.outer
        names := pattern :: pattern :: header.names
        inner := header.inner }
    else do
      let temp ← NameSupply.drawTemp pattern.span
      let header ← loopHeader rest
      pure {
        outer := temp.form :: init :: pattern :: temp.form :: header.outer
        names := temp.form :: temp.form :: header.names
        inner := pattern :: temp.form :: header.inner }

def loopForm (bindings body : List Form) (span : Option Span) : Form :=
  .list (.plainSymbol "loop" :: .vector bindings none [] :: body) span []

def lowerLoop (pairs : List (Form × Form)) (body : List Form) (span : Option Span) :
    NameM Form := do
  let header ← loopHeader pairs
  pure (letForm header.outer [loopForm header.names [letForm header.inner body span] span] span)

end LispFront.Pattern
