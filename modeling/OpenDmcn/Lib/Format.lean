import OpenDmcn.Lib.Bytes

/-! Records that travel as messages. A record is put into a message, the message into bytes, and
back; what is read need not be what was written, for the message may hold less or the reader may
normalise. What matters is whether the record that is read is written the same way again. -/

namespace Go

structure Format (α β : Type) [Inhabited β] where
  codec : Codec β
  toProto : α → β
  fromProto : β → Option α

namespace Format

variable {α β : Type} [Inhabited β] (f : Format α β)

def encode (r : α) : Bytes := f.codec.marshal (f.toProto r)

def decode (data : Bytes) : Option α := (f.codec.unmarshal data).bind f.fromProto

variable {f}

theorem decode_encode (r : α) : f.decode (f.encode r) = f.fromProto (f.toProto r) := by
  rw [decode, encode, Codec.unmarshal_marshal, Option.bind_some]

def Settles (f : Format α β) : Prop :=
  ∀ pb r, f.fromProto pb = some r → f.fromProto (f.toProto r) = some r

theorem Settles.decode (h : f.Settles) {data : Bytes} {r : α} (hread : f.decode data = some r) :
    f.decode (f.encode r) = some r := by
  obtain ⟨pb, _, hpb⟩ := Option.bind_eq_some_iff.mp hread
  rw [decode_encode]
  exact h pb r hpb

/-- Records survive the wire: those that are built, as records that are written in the same bytes
and that the same keys verify; those that are read, as themselves. -/
structure Survives (f : Format α β) (built : α → Prop) (verifies : Bytes → α → Prop) : Prop where
  written : ∀ r, built r → ∃ r', f.decode (f.encode r) = some r' ∧ f.encode r' = f.encode r ∧
    ∀ key, verifies key r' ↔ verifies key r
  read : ∀ data r key, f.decode data = some r → verifies key r →
    ∃ r', f.decode (f.encode r) = some r' ∧ r' = r ∧ verifies key r'

theorem survives_of_settles {built : α → Prop} {verifies : Bytes → α → Prop} (hsettles : f.Settles)
    (hbuilt : ∀ r, built r → ∃ r', f.fromProto (f.toProto r) = some r' ∧
      f.toProto r' = f.toProto r ∧ ∀ key, verifies key r' ↔ verifies key r) : f.Survives built
      verifies := by
  constructor
  · intro r hr
    obtain ⟨r', hread, hsame, hverifies⟩ := hbuilt r hr
    exact ⟨r', by rw [decode_encode, hread], by rw [encode, encode, hsame], hverifies⟩
  · intro data r key hread hverifies
    exact ⟨r, hsettles.decode hread, rfl, hverifies⟩

end Format

end Go
