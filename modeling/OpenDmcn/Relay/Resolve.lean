import OpenDmcn.Relay.RecordStore
import OpenDmcn.Registry.Service

/-! The reads a relay serves (`resolve.go`): local-first resolution for its own use, and the public
fleet-resolution ops. A node that hosts no records has no store. -/

namespace Dmcn

open Go

def resolveIdentity (rt : Runtime) (records : Option RecordStore)
    (lookup : Time → String → Answer IdentityRecord) (now : Time) (address : String) :
    Answer IdentityRecord :=
  match (records.bind fun rs => rs.getIdentity rt address).filter fun rec => !rec.expired now with
  | some rec => .ok (some rec)
  | none => lookup now address

def handleGetIdentity (rt : Runtime) (records : Option RecordStore) (now : Time)
    (address : String) :
    Option Bytes :=
  (records.bind fun rs => rs.getIdentityBytes address).filter fun data =>
    (IdentityRecord.fromProtoBytes rt data).elim true fun rec => !rec.expired now

def handleGetDAR (records : Option RecordStore) (domain : String) : Option Bytes :=
  records.bind fun rs => rs.getDARBytes domain

def handleGetHistory (records : Option RecordStore) (address : String) : Option Bytes :=
  records.bind fun rs => rs.getHistoryBytes address

def handleGetRemoval (records : Option RecordStore) (address : String) : Option Bytes :=
  records.bind fun rs => rs.getRemovalBytes address

def handleGetBlocklist (records : Option RecordStore) (domain : String) : Option Bytes :=
  records.bind fun rs => rs.getBlocklistBytes domain

theorem handleGetIdentity_isSome {rt : Runtime} {rs : RecordStore} {a : String}
    {rec : IdentityRecord} (h : rs.getIdentity rt a = some rec) (now : Time) :
    (handleGetIdentity rt (some rs) now a).isSome = true ↔ rec.expired now = false := by
  obtain ⟨data, hdata, hparse⟩ := Option.bind_eq_some_iff.mp h
  have hbytes : rs.getIdentityBytes a = some data := hdata
  simp [handleGetIdentity, hbytes, Option.filter, hparse]

end Dmcn
