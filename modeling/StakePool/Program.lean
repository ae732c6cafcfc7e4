import StakePool.Command
import StakePool.Report.Accounts
import StakePool.Report.Basket
import StakePool.Report.Events
import StakePool.Store.Directory

/-!
# The program

`Program.run` makes the report that a command asks for from what stands at the place of its directory, and
says what to print and how to exit.
-/

namespace StakePool

structure Outcome where
  exitCode : UInt32
  stdout : String
  stderr : String
deriving DecidableEq

namespace Outcome

def success (text : String) : Outcome := ⟨0, text, ""⟩

def failure (fault : ReportFault) : Outcome :=
  let cause := match fault.cause? with
    | none => ""
    | some text => "\nCaused by:\n    " ++ text ++ "\n"
  ⟨1, "", "Error: " ++ fault.message ++ "\n" ++ cause⟩

def ofReport (report : Except ReportFault String) : Outcome :=
  match report with
  | .ok text => success text
  | .error fault => failure fault

end Outcome

/-- What stands where the accounts should be. -/
inductive Place
  | missing
  | file
  | directory (contents : Directory)

namespace Program

def accountsText (store : DirectoryStore) : String :=
  "\nStored Accounts\n---------------\n" ++ (Report.accountTable store).draw ++ "\n\n"

def eventsText (queue : Pubkey) (rows : List EventRow) (json : Bool) : String :=
  if json then
    (Report.eventsJson rows).pretty ++ "\n"
  else
    s!"\nReward Events ({queue.toBase58})\n\n" ++ (Report.eventTable rows).draw ++ "\n\n"

def basketText (vaults : List Pubkey) (shares : UInt64) (rounding : Rounding) (valuation : PoolValuation)
    (basket : Basket) : String :=
  "\nBasket\n------\n" ++ (Report.basketSummary valuation shares rounding).draw ++ "\n\n" ++
    (Report.basketTable vaults valuation basket).draw ++ "\n\n"

def report (store : DirectoryStore) : Command → Except ReportFault String
  | .accounts => .ok (accountsText store)
  | .events queue since json => do
    let rows ← Report.events store queue since
    return eventsText queue rows json
  | .basket mint vaults shares rounding => do
    let (valuation, basket) ← Report.basket store mint vaults shares rounding
    return basketText vaults shares rounding valuation basket

/-- What a command meets when a file stands where its directory should be. -/
def reportOnFile (name : String) : Command → ReportFault
  | .accounts => .noDirectory name
  | .events .. => .store (.file .notDirectory)
  | .basket _ vaults _ _ =>
    match Report.kindOfCount vaults.length with
    | .error fault => fault
    | .ok _ => .store (.file .notDirectory)

def makesDirectory : Command → Bool
  | .accounts => false
  | _ => true

/-- Runs a command on what stands at the place of its directory. -/
def run (invocation : Invocation) (place : Place) : Outcome :=
  match place with
  | .directory contents => .ofReport (report ⟨contents⟩ invocation.command)
  | .file => .failure (reportOnFile invocation.directory invocation.command)
  | .missing =>
    if makesDirectory invocation.command then
      .ofReport (report ⟨.empty⟩ invocation.command)
    else
      .failure (.noDirectory invocation.directory)

def usage : String :=
  "usage: stake-pool [-d DIR] (inspect | events QUEUE [--since CURSOR] [--json] |\n" ++
  "         basket --mint KEY --vault KEY [KEY] [--shares NUMBER] [--round-up])\n"

def misuse : Outcome := ⟨2, "", usage⟩

def directoryVariable : String := "STAKE_LEDGER_DIR"

end Program

end StakePool
