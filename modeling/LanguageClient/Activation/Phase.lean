/-!
# The phases of an activation
-/

namespace LanguageClient

inductive ActivationPhase where
  | notActivated
  | activating
  | activated
  | deactivating
  deriving DecidableEq, Repr

namespace ActivationPhase

def text : ActivationPhase → String
  | .notActivated => "not activated"
  | .activating => "activating"
  | .activated => "activated"
  | .deactivating => "deactivating"

def all : List ActivationPhase := [.notActivated, .activating, .activated, .deactivating]

end ActivationPhase

end LanguageClient
