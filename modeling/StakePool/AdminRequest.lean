import StakePool.Codec.Format

/-!
# Administrator requests

An `AdminRequest` is sent behind an 8-byte tag that names the family of requests. `decodeTagged` checks the
tag before it looks at the request.
-/

namespace StakePool

inductive AdminRequest
  | pause
  | unpause
  | addAsset
  /-- Drop an asset of which the pool holds nothing. -/
  | removeAsset
  | updateFee (rate : UInt32)
  | updateAdmin
  /-- An exchange instruction that is forwarded as it stands. -/
  | createOrder (data : Block 284)
  | cancelOrder (data : Block 132)
deriving DecidableEq

namespace AdminRequest

inductive Kind
  | pause
  | unpause
  | addAsset
  | removeAsset
  | updateFee
  | updateAdmin
  | createOrder
  | cancelOrder
deriving DecidableEq, Repr

namespace Kind

def all : List Kind := [pause, unpause, addAsset, removeAsset, updateFee, updateAdmin, createOrder, cancelOrder]

def toByte : Kind → UInt8
  | pause => 0
  | unpause => 1
  | addAsset => 2
  | removeAsset => 3
  | updateFee => 4
  | updateAdmin => 5
  | createOrder => 6
  | cancelOrder => 7

def code : ByteCode Kind :=
  .ofList all toByte (by intro a; cases a <;> decide) (by intro a b; cases a <;> cases b <;> decide)

abbrev Fields : Kind → Type
  | updateFee => UInt32
  | createOrder => Block 284
  | cancelOrder => Block 132
  | _ => Unit

def layout : (k : Kind) → Layout k.Fields
  | pause | unpause | addAsset | removeAsset | updateAdmin => .empty
  | updateFee => .u32
  | createOrder => .block 284
  | cancelOrder => .block 132

end Kind

def fields : Bijection ((k : Kind) × k.Fields) AdminRequest where
  forth
    | ⟨.pause, _⟩ => pause
    | ⟨.unpause, _⟩ => unpause
    | ⟨.addAsset, _⟩ => addAsset
    | ⟨.removeAsset, _⟩ => removeAsset
    | ⟨.updateFee, rate⟩ => updateFee rate
    | ⟨.updateAdmin, _⟩ => updateAdmin
    | ⟨.createOrder, data⟩ => createOrder data
    | ⟨.cancelOrder, data⟩ => cancelOrder data
  back
    | pause => ⟨.pause, ()⟩
    | unpause => ⟨.unpause, ()⟩
    | addAsset => ⟨.addAsset, ()⟩
    | removeAsset => ⟨.removeAsset, ()⟩
    | updateFee rate => ⟨.updateFee, rate⟩
    | updateAdmin => ⟨.updateAdmin, ()⟩
    | createOrder data => ⟨.createOrder, data⟩
    | cancelOrder data => ⟨.cancelOrder, data⟩
  back_forth p := by obtain ⟨k, p⟩ := p; cases k <;> rfl
  forth_back r := by cases r <;> rfl

def format : Format AdminRequest := .via fields (.variant Kind.code fun k => .fixed k.layout)

def tag : UInt64 := 0x31e645f3c1617878

/-- The word at the start of the state of a pool that such requests control. -/
def poolTag : UInt64 := 0x4a3fbcf74f93f94e

def encodeTagged (r : AdminRequest) : Bytes :=
  (format.encodeInto r (Writer.empty.putWord Word.u64 tag)).toBytes

def decodeTagged (bytes : Bytes) : Except Fault AdminRequest :=
  match Read.word Word.u64 (Reader.ofBytes bytes) with
  | .error fault _ => .error fault
  | .ok found r =>
    if found = tag then
      match format.read r with
      | .ok request _ => .ok request
      | .error fault _ => .error fault
    else
      .error (.unknownTag found)

def controlsPool (state : Bytes) : Bool := 8 ≤ state.length && state.take 8 == Word.u64.bytes poolTag

end AdminRequest

end StakePool
