import OpampFleet.Lib.Files

/-!
# Instance UIDs

The model of the `opamp` crate's `uid.rs`. A value is sixteen bytes, so a message whose `instance_uid` has another
length has none.
-/

namespace OpampFleet.Opamp

open Lib

structure InstanceUid where
  bytes : Bytes
  length_eq : bytes.length = 16
  deriving DecidableEq

def InstanceUid.fromWire (bytes : Bytes) : Option InstanceUid :=
  if h : bytes.length = 16 then some ⟨bytes, h⟩ else none

/-- An `instance_uid` reads back from its bytes. -/
lemma InstanceUid.fromWire_bytes (uid : InstanceUid) : fromWire uid.bytes = some uid := by
  simp [fromWire, uid.length_eq]

def InstanceUid.ofByte (b : UInt8) : InstanceUid := ⟨List.replicate 16 b, by simp⟩

end OpampFleet.Opamp
