import StakePool.Store.Fault

/-!
# Report faults

A `ReportFault` says why a report could not be made. `ReportFault.message` is its text.
-/

namespace StakePool

inductive ReportFault
  | store (fault : StoreFault)
  | bytes (fault : Fault)
  | vaultCount (count : Nat)
  | noDirectory (name : String)
deriving DecidableEq

namespace ReportFault

def message : ReportFault → String
  | store fault => fault.message
  | bytes fault => fault.message
  | vaultCount count => s!"expected one or two vaults, got {count}"
  | noDirectory name => s!"account directory {name} does not exist"

def cause? : ReportFault → Option String
  | store fault => fault.cause?
  | _ => none

end ReportFault

end StakePool
