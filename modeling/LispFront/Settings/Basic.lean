import LispFront.Settings.Reserved

/-! What a project can choose about its analysis. Every choice has a default. -/

namespace LispFront

structure Settings where
  /-- Searched last for plain names; holds the accessors that patterns use. -/
  coreNamespace : String := "core"
  /-- Current before the first namespace form. -/
  defaultNamespace : String := "user"
  /-- Whether a definition may replace an earlier one of its name. -/
  allowRedefinition : Bool := false
  /-- Words refused in namespaces beside those of the platform. -/
  reservedWords : List String := []
  deriving DecidableEq, Repr

def Settings.isReserved (settings : Settings) (word : String) : Bool :=
  isPlatformWord word ||
    settings.reservedWords.any fun extra => Text.asciiLower extra == Text.asciiLower word

end LispFront
