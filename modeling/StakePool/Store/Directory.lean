import StakePool.Dump
import StakePool.Store.Basic
import StakePool.Store.Catalog

/-!
# Accounts in a directory

A `DirectoryStore` keeps each account in a dump file named after its key. Whatever else lies in the directory
is left alone; a directory in the place of a dump can be listed, but neither read nor written.
-/

namespace StakePool

inductive Entry
  | file (contents : Bytes)
  | directory
deriving DecidableEq

/-- A directory: its names, in the order in which they are listed. Names that are no text stand for no account, and are
left out. -/
abbrev Directory := Catalog String Entry

structure DirectoryStore where
  directory : Directory

namespace DirectoryStore

def suffix : List Char := ".acct".toList

def fileName (key : Pubkey) : String := String.ofList (key.toBase58.toList ++ suffix)

def keyOfName? (name : String) : Option Pubkey :=
  let cs := name.toList
  let stem := cs.take (cs.length - suffix.length)
  if cs.drop (cs.length - suffix.length) = suffix then
    (Pubkey.parse (String.ofList stem)).toOption
  else
    none

instance : AccountStore DirectoryStore where
  fetch s key := match s.directory.get? (fileName key) with
    | none => .error (.accountNotFound key)
    | some .directory => .error (.file .notMappable)
    | some (.file contents) => Dump.read contents
  keep key bytes := do
    let contents ← liftExcept (Dump.write bytes)
    if (← get).directory.get? (fileName key) = some .directory then
      throw (.file .isDirectory)
    modify fun s => ⟨s.directory.insert (fileName key) (.file contents)⟩
  keys s := Pubkey.sort (s.directory.keys.filterMap keyOfName?)

end DirectoryStore

end StakePool
