import FpvIndexer.Database.Schema

namespace FpvIndexer

structure ERC20Metadata where
  decimals : Int
  symbol : String
deriving DecidableEq

structure TokenServices where
  getERC20Metadata : Address → Except Failure ERC20Metadata
  isValidERC20 : Address → Except Failure Bool
  getTokenDecimals : Address → Except Failure Int
  getTokenSymbol : Address → Except Failure String

/-- The services that answer for tokens whose decimals never change. -/
structure TokenServices.Answers (services : TokenServices) (decimalsOf : Address → Int) : Prop where
  metadata : ∀ token answer, services.getERC20Metadata token = .ok answer → answer.decimals = decimalsOf token
  decimals : ∀ token answer, services.getTokenDecimals token = .ok answer → answer = decimalsOf token

def TokenServices.offline : TokenServices where
  getERC20Metadata _ := .error (.rejected "offline")
  isValidERC20 _ := .ok false
  getTokenDecimals _ := .error (.rejected "offline")
  getTokenSymbol _ := .error (.rejected "offline")

end FpvIndexer
