import OpenDmcn.Identity.Rotate
import OpenDmcn.Lib.HashChain

/-! What binds a rotation entry to its place. Each of its signatures is over the transition and the
signatures before it, under a context of its own, and the transition names the address and, by the
hash of its signature, the entry before. -/

namespace Dmcn

open Go Guard

variable {rt : Runtime}

namespace RotationEntry

def transition (e : RotationEntry) : Pb.RotationEntry :=
  { e.toProto with deviceSignature := [], signature := [], nextSignature := [] }

def offer (e : RotationEntry) : Pb.RotationEntry :=
  { e.toProto with signature := [], nextSignature := [] }

def handover (e : RotationEntry) : Pb.RotationEntry := { e.toProto with nextSignature := [] }

theorem offer_of_handover {e e' : RotationEntry} (h : e.handover = e'.handover) :
    e.offer = e'.offer :=
  congrArg (fun pb : Pb.RotationEntry => { pb with signature := [] }) h

theorem transition_of_offer {e e' : RotationEntry} (h : e.offer = e'.offer) :
    e.transition = e'.transition :=
  congrArg (fun pb : Pb.RotationEntry => { pb with deviceSignature := [] }) h

theorem handover_of_offer {e e' : RotationEntry} (h : e.offer = e'.offer)
    (hsig : e.signature = e'.signature) : e.handover = e'.handover := by
  have hleft : e.handover = { e.offer with signature := e.signature } := rfl
  have hright : e'.handover = { e'.offer with signature := e'.signature } := rfl
  rw [hleft, hright, h, hsig]

end RotationEntry

structure Signing where
  key : Bytes
  ctx : Ctx
  data : Bytes
  sig : Bytes

def RotationEntry.signings (rt : Runtime) (e : RotationEntry) : List Signing :=
  [⟨e.authorizingEd25519Public, .identityRotation, e.consentBytes rt, e.signature⟩,
    ⟨e.nextEd25519Public, .identityRotationAccept, e.acceptBytes rt, e.nextSignature⟩] ++
  (e.deviceCredential.map fun cred =>
    (⟨cred.subject, .identityRotationDevice, e.deviceBytes rt, e.deviceSignature⟩ : Signing)).toList

theorem RotationEntry.verify_signings {e : RotationEntry} (h : e.verify rt = .ok ()) :
    ∀ s ∈ e.signings rt, verifyCtx rt s.key s.ctx s.data s.sig = true := by
  obtain ⟨hconsent, haccept, hdevice⟩ := RotationEntry.verify_signatures h
  intro s hs
  simp only [signings, List.mem_append, List.mem_cons, List.not_mem_nil, or_false,
    Option.mem_toList, Option.map_eq_some_iff] at hs
  rcases hs with (rfl | rfl) | ⟨cred, hcred, rfl⟩
  · exact hconsent
  · exact haccept
  · exact hdevice cred hcred

def RotationEntry.Shares (rt : Runtime) (e e' : RotationEntry) : Prop :=
  ∃ s ∈ e.signings rt, ∃ s' ∈ e'.signings rt, s.sig = s'.sig

section Ideal

variable {signed : Bytes → Bytes → Prop} (hgenuine : Ideal.Genuine rt.ed25519Verify signed)
  (hbinding : Ideal.Binding rt.ed25519Verify)

include hbinding in
theorem verifyCtx_binding {key key' data data' sig : Bytes} {ctx ctx' : Ctx}
    (h : verifyCtx rt key ctx data sig = true) (h' : verifyCtx rt key' ctx' data' sig = true) :
    key' = key ∧ ctx' = ctx ∧ data' = data := by
  obtain ⟨hkey, hmsg⟩ := hbinding _ _ _ _ _ (verifyCtx_ed25519 h').2.2 (verifyCtx_ed25519 h).2.2
  obtain ⟨hctx, hdata⟩ := Ctx.tag_append_inj hmsg
  exact ⟨hkey, hctx, hdata⟩

theorem transition_eq_of_signings {e e' : RotationEntry} {s s' : Signing} (hs : s ∈ e.signings rt)
    (hs' : s' ∈ e'.signings rt) (hctx : s'.ctx = s.ctx) (hdata : s'.data = s.data) :
    e'.transition = e.transition := by
  have hinj := rt.rotationEntry.marshalDeterministic_injective
  simp only [RotationEntry.signings, List.mem_append, List.mem_cons, List.not_mem_nil, or_false,
    Option.mem_toList, Option.map_eq_some_iff] at hs hs'
  rcases hs with (rfl | rfl) | ⟨cred, hcred, rfl⟩
  · rcases hs' with (rfl | rfl) | ⟨cred', hcred', rfl⟩
    · have hoffer : e'.offer = e.offer := hinj hdata
      exact RotationEntry.transition_of_offer hoffer
    · cases hctx
    · cases hctx
  · rcases hs' with (rfl | rfl) | ⟨cred', hcred', rfl⟩
    · cases hctx
    · have hhandover : e'.handover = e.handover := hinj hdata
      exact RotationEntry.transition_of_offer (RotationEntry.offer_of_handover hhandover)
    · cases hctx
  · rcases hs' with (rfl | rfl) | ⟨cred', hcred', rfl⟩
    · cases hctx
    · cases hctx
    · exact hinj hdata

include hbinding in
theorem transition_eq_of_shares {e e' : RotationEntry} (he : e.verify rt = .ok ())
    (he' : e'.verify rt = .ok ()) (h : e.Shares rt e') : e'.transition = e.transition := by
  obtain ⟨s, hs, s', hs', hsig⟩ := h
  have hv := e.verify_signings he s hs
  have hv' := e'.verify_signings he' s' hs'
  rw [← hsig] at hv'
  obtain ⟨-, hctx, hdata⟩ := verifyCtx_binding hbinding hv hv'
  exact transition_eq_of_signings hs hs' hctx hdata

include hbinding in
theorem handover_eq_of_signature {e e' : RotationEntry} (he : e.verify rt = .ok ())
    (he' : e'.verify rt = .ok ()) (h : e.signature = e'.signature) : e.handover = e'.handover := by
  have hv := (RotationEntry.verify_signatures he).1
  have hv' := (RotationEntry.verify_signatures he').1
  rw [← h] at hv'
  obtain ⟨-, -, hdata⟩ := verifyCtx_binding hbinding hv' hv
  exact RotationEntry.handover_of_offer (rt.rotationEntry.marshalDeterministic_injective hdata) h

end Ideal

theorem isChain_of_verifyLinksAfter {address : String} {prev : Option RotationEntry}
    {chain : List RotationEntry} (h : verifyLinksAfter rt address prev chain = .ok ()) :
    (prev.toList ++ chain).IsChain fun a b => b.continues rt a = .ok () := by
  induction chain generalizing prev with
  | nil =>
    cases prev with
    | none => exact .nil
    | some a => exact .singleton a
  | cons e chain ih =>
    simp only [verifyLinksAfter, unit_bind] at h
    have hrest : (e :: chain).IsChain fun a b => b.continues rt a = .ok () := ih h.2
    cases prev with
    | none => exact hrest
    | some a =>
      have hlink := h.1
      simp only [verifyLink, unit_bind] at hlink
      exact List.isChain_cons_cons.mpr ⟨hlink.2.2, hrest⟩

theorem verifyLinksAfter_of_isChain {address : String} {prev : Option RotationEntry}
    {chain : List RotationEntry} (hentry : ∀ e ∈ chain, e.verify rt = .ok () ∧ e.address = address)
    (h : (prev.toList ++ chain).IsChain fun a b => b.continues rt a = .ok ()) :
    verifyLinksAfter rt address prev chain = .ok () := by
  induction chain generalizing prev with
  | nil => rfl
  | cons e chain ih =>
    obtain ⟨hverify, haddress⟩ := hentry e (List.mem_cons_self ..)
    have hrest : (e :: chain).IsChain fun a b => b.continues rt a = .ok () := h.right_of_append
    simp only [verifyLinksAfter, verifyLink, unit_bind, require_eq_ok]
    refine ⟨⟨hverify, ?_, ?_⟩, ih (fun e' he' => hentry e' (List.mem_cons_of_mem _ he')) hrest⟩
    · rw [haddress]
      exact Strings.equalFold_refl _
    · cases prev with
      | none => rfl
      | some a => exact (List.isChain_cons_cons.mp h).1

section Position

variable {address address' : String} {chain chain' before after before' after' : List RotationEntry}
  {e e' : RotationEntry}

theorem back_of_verifyChainLinks (h : verifyChainLinks rt chain address = .ok ())
    (hsplit : chain = before ++ e :: after) :
    HashChain.Back (fun a : RotationEntry => rt.sha256 a.signature) RotationEntry.prevSignatureHash
      (e :: before.reverse) := by
  have hchain : (before ++ e :: after).IsChain fun a b => b.continues rt a = .ok () := by
    rw [← hsplit]
    exact isChain_of_verifyLinksAfter h
  have hbelow : before ++ [e] <+: before ++ e :: after := by
    rw [List.prefix_append_right_inj]
    exact ⟨after, rfl⟩
  have hback : (e :: before.reverse).IsChain fun b a => b.continues rt a = .ok () := by
    rw [← List.reverse_concat, List.isChain_reverse]
    exact hchain.prefix hbelow
  refine hback.imp ?_
  intro b a hlink
  simp only [RotationEntry.continues, unit_bind, require_eq_ok] at hlink
  exact hlink.2.1

theorem genesis_of_not_truncated (htruncated : chainTruncated chain = false)
    (hsplit : chain = before ++ e :: after) :
    ∀ a, (e :: before.reverse).getLast? = some a → a.prevSignatureHash = [] := by
  intro a ha
  rw [← List.reverse_concat, List.getLast?_reverse] at ha
  subst hsplit
  cases before with
  | nil =>
    cases ha
    simpa [chainTruncated] using htruncated
  | cons b before =>
    cases ha
    simpa [chainTruncated] using htruncated

theorem nodup_nextRevision (h : verifyChainLinks rt chain address = .ok ()) :
    (chain.map RotationEntry.nextRevision).Nodup := by
  have hrise : (chain.map fun a => a.nextRevision.toNat).IsChain (· < ·) := by
    rw [List.isChain_map]
    refine List.IsChain.imp ?_ (isChain_of_verifyLinksAfter h)
    intro a b hlink
    simp only [RotationEntry.continues, unit_bind, require_eq_ok, refuse_eq_ok, UInt64.not_le]
      at hlink
    exact UInt64.lt_iff_toNat_lt.mp hlink.2.2.2
  have hnodup : (chain.map fun a => a.nextRevision.toNat).Nodup :=
    (List.isChain_iff_pairwise.mp hrise).imp fun hlt => hlt.ne
  have hmap : (chain.map fun a => a.nextRevision.toNat) =
      (chain.map RotationEntry.nextRevision).map UInt64.toNat := by
    rw [List.map_map]
    rfl
  rw [hmap] at hnodup
  exact hnodup.of_map _

def NoCollision (rt : Runtime) (chain chain' : List RotationEntry) : Prop :=
  ∀ a ∈ chain, ∀ b ∈ chain', rt.sha256 a.signature = rt.sha256 b.signature →
    a.signature = b.signature

variable (hbinding : Ideal.Binding rt.ed25519Verify)
  (h : verifyChainLinks rt chain address = .ok ())
  (h' : verifyChainLinks rt chain' address' = .ok ()) (hhash : NoCollision rt chain chain')

include hbinding h h' hhash in
theorem handover_eq_of_name (u v : RotationEntry) (hu : u ∈ chain) (hv : v ∈ chain')
    (hname : rt.sha256 u.signature = rt.sha256 v.signature) : u.handover = v.handover :=
  handover_eq_of_signature hbinding (verifyChainLinks_entry h u hu).1
    (verifyChainLinks_entry h' v hv).1
    (hhash u hu v hv hname)

theorem link_of_handover (u v : RotationEntry) (h : u.handover = v.handover) :
    u.prevSignatureHash = v.prevSignatureHash :=
  congrArg Pb.RotationEntry.prevSignatureHash h

end Position

/-- With signatures that cannot be forged and bind key and message: every signature of a chain that
verifies was made by the key the entry names, over the fields of that entry and in its own context,
and counts for nothing else. An entry that bears one of them anywhere has the same transition,
stands in a chain of the same address and, as far back as both chains go, behind the same entries.
So it stands at the same place in every chain that begins at the first rotation, and once in each
chain. -/
theorem rotation_entries_bound {signed : Bytes → Bytes → Prop}
    (hgenuine : Ideal.Genuine rt.ed25519Verify signed) (hbinding : Ideal.Binding rt.ed25519Verify)
    (hsha : ∀ b, (rt.sha256 b).length = 32) {address : String} {chain : List RotationEntry}
    (h : verifyChainLinks rt chain address = .ok ()) :
    (∀ e ∈ chain, ∀ s ∈ e.signings rt, signed s.key (s.ctx.tag ++ s.data) ∧
      ∀ key ctx data, verifyCtx rt key ctx data s.sig = true →
        key = s.key ∧ ctx = s.ctx ∧ data = s.data) ∧
    ∀ address' chain', verifyChainLinks rt chain' address' = .ok () → NoCollision rt chain chain' →
      ∀ before e after before' e' after', chain = before ++ e :: after →
        chain' = before' ++ e' :: after' → e.Shares rt e' →
        e'.transition = e.transition ∧ Strings.equalFold rt.unicode address' address = true ∧
        (∀ p ∈ before.reverse.zip before'.reverse, p.1.handover = p.2.handover) ∧
        (chainTruncated chain = false → chainTruncated chain' = false →
          before.length = before'.length) ∧
        (chain' = chain → before.length = before'.length) := by
  constructor
  · intro e he s hs
    have hv := e.verify_signings (verifyChainLinks_entry h e he).1 s hs
    refine ⟨hgenuine _ _ _ (verifyCtx_ed25519 hv).2.2, ?_⟩
    intro key ctx data hv'
    exact verifyCtx_binding hbinding hv hv'
  · intro address' chain' h' hhash before e after before' e' after' hsplit hsplit' hshares
    have he : e ∈ chain := by simp [hsplit]
    have he' : e' ∈ chain' := by simp [hsplit']
    obtain ⟨hverify, haddress⟩ := verifyChainLinks_entry h e he
    obtain ⟨hverify', haddress'⟩ := verifyChainLinks_entry h' e' he'
    have hsame := transition_eq_of_shares hbinding hverify hverify' hshares
    have hback := back_of_verifyChainLinks h hsplit
    have hback' := back_of_verifyChainLinks h' hsplit'
    have hlink : e.prevSignatureHash = e'.prevSignatureHash :=
      (congrArg Pb.RotationEntry.prevSignatureHash hsame).symm
    have hname : ∀ u ∈ before.reverse, ∀ v ∈ before'.reverse,
        rt.sha256 u.signature = rt.sha256 v.signature → u.handover = v.handover := by
      intro u hu v hv
      apply handover_eq_of_name hbinding h h' hhash
      · rw [hsplit]
        exact List.mem_append_left _ (List.mem_reverse.mp hu)
      · rw [hsplit']
        exact List.mem_append_left _ (List.mem_reverse.mp hv)
    refine ⟨hsame, ?_, HashChain.zip_agree hback hback' hname link_of_handover hlink, ?_, ?_⟩
    · have hspelled : e'.address = e.address := congrArg Pb.RotationEntry.address hsame
      rw [hspelled] at haddress'
      exact Strings.equalFold_trans (Strings.equalFold_symm haddress') haddress
    · intro hcomplete hcomplete'
      have hlength := HashChain.length_eq_of_agree hback hback' hname link_of_handover hlink
        (fun a hnil => by
          have hsize := hsha a.signature
          rw [hnil] at hsize
          cases hsize)
        (genesis_of_not_truncated hcomplete hsplit) (genesis_of_not_truncated hcomplete' hsplit')
      rwa [List.length_reverse, List.length_reverse] at hlength
    · rintro rfl
      have hrevision : e'.nextRevision = e.nextRevision :=
        congrArg Pb.RotationEntry.nextRevision hsame
      have hbound : before.length < (chain'.map RotationEntry.nextRevision).length := by
        rw [List.length_map, hsplit, List.length_append, List.length_cons]
        omega
      have hat : ∀ (before : List RotationEntry) e after, chain' = before ++ e :: after →
          (chain'.map RotationEntry.nextRevision)[before.length]? = some e.nextRevision := by
        rintro before e after rfl
        simp
      apply (List.getElem?_inj hbound (nodup_nextRevision h)).mp
      rw [hat before e after hsplit, hat before' e' after' hsplit', hrevision]

noncomputable def ledgerRuntime (ledger : List Signing) : Runtime :=
  { idealRuntime [] [] with
    ed25519Verify := Ideal.ledgerVerify (ledger.map fun s => (s.key, s.ctx.tag ++ s.data, s.sig)) }

theorem ledgerRuntime_binding {ledger : List Signing} (h : (ledger.map Signing.sig).Nodup) :
    Ideal.Binding (ledgerRuntime ledger).ed25519Verify := by
  refine Ideal.ledgerVerify_binding _ ?_
  rw [List.map_map]
  exact h

theorem verifyCtx_ledgerRuntime {ledger : List Signing} {s : Signing} (hs : s ∈ ledger)
    (hkey : s.key.length = 32) (hsig : s.sig.length = 64) :
    verifyCtx (ledgerRuntime ledger) s.key s.ctx s.data s.sig = true := by
  simp only [verifyCtx, Crypto.verify, hkey, hsig, Crypto.ed25519PublicKeySize,
    Crypto.ed25519SignatureSize, beq_self_eq_true, Bool.true_and]
  exact (Ideal.ledgerVerify_eq_true _).mpr (List.mem_map.mpr ⟨s, hs, rfl⟩)

theorem RotationEntry.verify_ledgerRuntime {ledger : List Signing} {e : RotationEntry}
    (hledger : ∀ s ∈ e.signings (idealRuntime [] []), s ∈ ledger) (hshape : e.checkShape = .ok ())
    (hsizes : ∀ s ∈ e.signings (idealRuntime [] []), s.key.length = 32 ∧ s.sig.length = 64)
    (halone : e.deviceCredential = none → e.deviceSignature = []) :
    e.verify (ledgerRuntime ledger) = .ok () := by
  have hall : ∀ s ∈ e.signings (idealRuntime [] []),
      verifyCtx (ledgerRuntime ledger) s.key s.ctx s.data s.sig = true :=
    fun s hs => verifyCtx_ledgerRuntime (hledger s hs) (hsizes s hs).1 (hsizes s hs).2
  have hconsent := hall ⟨e.authorizingEd25519Public, .identityRotation, _, e.signature⟩
    (List.mem_append_left _ (List.mem_cons_self ..))
  have haccept := hall ⟨e.nextEd25519Public, .identityRotationAccept, _, e.nextSignature⟩
    (List.mem_append_left _ (List.mem_cons_of_mem _ (List.mem_cons_self ..)))
  refine RotationEntry.verify_eq_ok.mpr ⟨hshape, hconsent, ?_, haccept⟩
  unfold checkDevice
  cases hcred : e.deviceCredential with
  | none => simp [halone hcred]
  | some cred =>
    refine require_eq_ok.mpr ?_
    refine hall ⟨cred.subject, .identityRotationDevice, _, e.deviceSignature⟩
      (List.mem_append_right _ ?_)
    rw [hcred]
    exact List.mem_cons_self ..

/-! Two rotations, from key 2 over key 3 to key 4, on a ledger of four signatures. -/
namespace Handed

def sig (n : UInt8) : Bytes := List.replicate 64 n

@[simp] theorem length_sig (n : UInt8) : (sig n).length = 64 := by simp [sig]

def entry (retired next : UInt8) (at_ : Int64) (revision : UInt64) (prevHash : Bytes) (n : UInt8) :
    RotationEntry where
  version := 1
  address := "alice@example.org"
  retiredEd25519Public := keyOf retired
  retiredX25519Public := Fixed.copy 32 (keyOf retired)
  nextEd25519Public := keyOf next
  nextX25519Public := Fixed.copy 32 (keyOf next)
  rotatedAt := Time.ofUnix at_
  nextRevision := revision
  prevSignatureHash := prevHash
  authorizingEd25519Public := keyOf retired
  deviceCredential := none
  deviceSignature := []
  signature := sig n
  nextSignature := sig (n + 1)

def first : RotationEntry := entry 2 3 100 2 [] 1

def second : RotationEntry := entry 3 4 200 3 (List.replicate 32 1) 3

noncomputable def ledger : List Signing :=
  first.signings (idealRuntime [] []) ++ second.signings (idealRuntime [] [])

def Signed (ledger : List Signing) (key message : Bytes) : Prop :=
  ∃ s, (key, message, s) ∈ ledger.map fun s => (s.key, s.ctx.tag ++ s.data, s.sig)

theorem genuine : Ideal.Genuine (ledgerRuntime ledger).ed25519Verify (Signed ledger) :=
  Ideal.ledgerVerify_genuine _

theorem binding : Ideal.Binding (ledgerRuntime ledger).ed25519Verify := by
  apply ledgerRuntime_binding
  change [sig 1, sig 2, sig 3, sig 4].Nodup
  decide

theorem length_sha256 (b : Bytes) : ((ledgerRuntime ledger).sha256 b).length = 32 :=
  Fixed.length_val _

theorem verify_first : first.verify (ledgerRuntime ledger) = .ok () := by
  refine RotationEntry.verify_ledgerRuntime ?_ (by decide) ?_ (fun _ => rfl)
  · exact fun s hs => List.mem_append_left _ hs
  · simp [RotationEntry.signings, first, entry]

theorem verify_second : second.verify (ledgerRuntime ledger) = .ok () := by
  refine RotationEntry.verify_ledgerRuntime ?_ (by decide) ?_ (fun _ => rfl)
  · exact fun s hs => List.mem_append_right _ hs
  · simp [RotationEntry.signings, second, entry]

theorem verify_chain : verifyChainLinks (ledgerRuntime ledger)
    [first, second] "alice@example.org" = .ok () := by
  have hlinked : second.continues (ledgerRuntime ledger) first = .ok () := by
    simp only [RotationEntry.continues, unit_bind, require_eq_ok, refuse_eq_ok]
    exact ⟨⟨rfl, rfl⟩, rfl, by decide, by decide⟩
  simp only [verifyChainLinks, verifyLinksAfter, verifyLink, unit_bind, require_eq_ok]
  exact ⟨⟨verify_first, Strings.equalFold_refl _, rfl⟩,
    ⟨verify_second, Strings.equalFold_refl _, hlinked⟩, trivial⟩

theorem noCollision : NoCollision (ledgerRuntime ledger) [first, second] [first, second] := by
  intro a ha b hb
  simp only [List.mem_cons, List.not_mem_nil, or_false] at ha hb
  rcases ha with rfl | rfl
  · rcases hb with rfl | rfl
    · exact fun _ => rfl
    · intro hcollision
      exact absurd hcollision
        (show (Fixed.copy 32 (sig 1)).val ≠ (Fixed.copy 32 (sig 3)).val by decide)
  · rcases hb with rfl | rfl
    · intro hcollision
      exact absurd hcollision
        (show (Fixed.copy 32 (sig 3)).val ≠ (Fixed.copy 32 (sig 1)).val by decide)
    · exact fun _ => rfl

/-- The second entry verifies in the second place, and in the first once the chain is cut. -/
theorem entry_verifies_at_two_positions :
    Ideal.Genuine (ledgerRuntime ledger).ed25519Verify (Signed ledger) ∧
    Ideal.Binding (ledgerRuntime ledger).ed25519Verify ∧
      NoCollision (ledgerRuntime ledger) [first, second] [first, second] ∧
    verifyChainLinks (ledgerRuntime ledger) [first, second] "alice@example.org" = .ok () ∧
    verifyChainLinks (ledgerRuntime ledger) [second] "alice@example.org" = .ok () := by
  refine ⟨genuine, binding, noCollision, verify_chain, ?_⟩
  exact verifyChainLinks_drop verify_chain 1

theorem second_entry_bound :
    Signed ledger (keyOf 3)
      (Ctx.identityRotation.tag ++ second.consentBytes (ledgerRuntime ledger)) ∧
    ∀ before e' after', [first, second] = before ++ e' :: after' →
      second.Shares (ledgerRuntime ledger) e' →
      before.length = 1 := by
  obtain ⟨hsigned, hplaced⟩ := rotation_entries_bound genuine binding length_sha256 verify_chain
  refine ⟨?_, ?_⟩
  · have hconsent := hsigned second (by simp)
      ⟨keyOf 3, .identityRotation, second.consentBytes (ledgerRuntime ledger), sig 3⟩ (by
        rw [RotationEntry.signings]
        exact List.mem_cons_self ..)
    exact hconsent.1
  · intro before e' after' hsplit hshares
    have hall :=
      hplaced "alice@example.org" [first, second] verify_chain noCollision [first] second []
      before e' after' rfl hsplit hshares
    exact (hall.2.2.2.2 rfl).symm

end Handed

end Dmcn
