import CircuitHarness.Contracts.Simple

/-! A contract with an owner, who alone can name the next one. -/
namespace CircuitHarness.Ownable

def ledger (payload : Value) : Except Failure Value := do
  return .record "OwnableLedger"
    [("owner", ← payload.entry (.str "_owner")), ("salt", ← payload.entry (.str "_salt"))]

def initialState (c : ConstructorContext) : List Value → Except Failure ConstructorResult
  | [owner, salt] => .ok ⟨.map [(.str "_owner", owner), (.str "_salt", salt)], c.privateState⟩
  | _ => .error .wrongType

def owner (c : CircuitContext) : List Value → Program
  | [] => match c.payload.entry (.str "_owner") with
    | .ok v => .done (.ok v) none
    | .error f => .fail f
  | _ => .fail .wrongType

def transferOwnership (c : CircuitContext) : List Value → Except Failure (Value × CircuitContext)
  | [next] => do
    let es ← c.payload.entries
    let now ← (Value.map es).entry (.str "_owner")
    if (Value.str c.sender).same now then return (.none, c.withPayload (es.put (.str "_owner") next))
    else throw (.assertion "failed assert: Ownable: caller is not the owner")
  | _ => .error .wrongType

def contract : Artifact where
  pure := .ofList [("owner", owner)]
  impure := .ofList [("transferOwnership", fun c as => .ofResult (transferOwnership c as))]
  initialState := initialState

def ownerAndSalt : List Value → Except Refusal (List Value)
  | [owner, salt] => .ok [owner, salt]
  | [] => .error (.mismatch "<lambda>() missing 2 required positional arguments: 'owner' and 'salt'")
  | [_] => .error (.mismatch "<lambda>() missing 1 required positional argument: 'salt'")
  | as => .error (.mismatch ("<lambda>() takes 2 positional arguments but " ++ toString as.length ++ " were given"))

def config : Config where
  contract _ := .ok contract
  defaultPrivate := .map []
  ledger := ledger
  defaultWitnesses := []
  transform := ownerAndSalt
  carryover := .reset

end CircuitHarness.Ownable
