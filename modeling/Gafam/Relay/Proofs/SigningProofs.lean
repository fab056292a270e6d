import Gafam.Go.Proofs.TextProofs
import Gafam.Relay.Feed

/-!
# What a signature binds

The signed message is the four fields with bars in between, and nothing in the fields is escaped. So the
message tells the fields apart only when the first two have no bar, and the content does not offer
another place for the time.
-/

namespace Gafam.Relay

open Gafam.Go

/-! ## Texts with a separator -/

section Separator

variable {sep : UInt8}

/-- The first separator of a text. -/
theorem first_separator {t s z w : GoString} (ht : sep ∉ t) (h : t ++ sep :: s = z ++ sep :: w) :
    (z = t ∧ s = w) ∨ ∃ z', z = t ++ sep :: z' ∧ s = z' ++ sep :: w := by
  rcases List.append_eq_append_iff.1 h with ⟨y, hz, hs⟩ | ⟨y, ht', hs⟩
  · cases y with
    | nil =>
      rw [List.append_nil] at hz
      exact .inl ⟨hz, (List.cons.inj hs).2⟩
    | cons b y =>
      rw [List.cons_append] at hs
      obtain ⟨rfl, hrest⟩ := List.cons.inj hs
      exact .inr ⟨y, hz, hrest⟩
  · cases y with
    | nil =>
      rw [List.append_nil] at ht'
      exact .inl ⟨ht'.symm, (List.cons.inj hs).2.symm⟩
    | cons b y =>
      rw [List.cons_append] at hs
      obtain ⟨rfl, -⟩ := List.cons.inj hs
      exact absurd (ht' ▸ by simp) ht

/-- The pieces of a text that a separator ends. -/
def closedPieces (sep : UInt8) (s : GoString) : List GoString := (s.splitOn sep).dropLast

theorem closedPieces_append (s t : GoString) :
    closedPieces sep (s ++ sep :: t) = s.splitOn sep ++ closedPieces sep t := by
  unfold closedPieces
  rw [List.splitOn_append_cons_self, List.dropLast_append_of_ne_nil (List.splitOn_ne_nil sep t)]

/-- Where a piece stands. -/
theorem exists_of_mem_closedPieces {s p : GoString} (h : p ∈ closedPieces sep s) :
    ∃ after, s = p ++ sep :: after ∨ ∃ before, s = before ++ sep :: (p ++ sep :: after) := by
  induction hlen : s.length using Nat.strongRecOn generalizing s with
  | _ n ih =>
    by_cases hsep : sep ∈ s
    · obtain ⟨t, s', rfl, ht⟩ := List.eq_append_cons_of_mem hsep
      rw [closedPieces_append, List.splitOn_eq_singleton ht, List.singleton_append] at h
      rcases List.mem_cons.1 h with rfl | h
      · exact ⟨s', .inl rfl⟩
      · have hlt : s'.length < n := by
          rw [← hlen, List.length_append, List.length_cons]
          omega
        obtain ⟨after, rfl | ⟨before, rfl⟩⟩ := ih s'.length hlt h rfl
        · exact ⟨after, .inr ⟨t, rfl⟩⟩
        · exact ⟨after, .inr ⟨t ++ sep :: before, by simp⟩⟩
    · unfold closedPieces at h
      rw [List.splitOn_eq_singleton hsep] at h
      cases h

end Separator

/-! ## The signed message -/

/-- The text is that of a time. -/
def IsTimestamp (p : GoString) : Prop := ∃ ts : Int64, p = itoa ts.toInt

/-- The fields can be told apart: neither phone has a bar, and no piece of the content in front of a bar
is the text of a number. -/
def Unambiguous (authorPhone recipientPhone content : GoString) : Prop :=
  bar ∉ authorPhone ∧ bar ∉ recipientPhone ∧ ∀ p ∈ closedPieces bar content, ¬ IsTimestamp p

theorem bar_notMem_itoa (n : Int) : bar ∉ itoa n := notMem_itoa (by decide) n

theorem atoi_toInt (ts : Int64) : atoi (itoa ts.toInt) = some ts.toInt :=
  atoi_itoa (Int64.le_toInt ts) (Int64.toInt_lt ts)

theorem itoa_toInt_inj {t t' : Int64} (h : itoa t.toInt = itoa t'.toInt) : t = t' := by
  have hatoi := atoi_toInt t
  rw [h, atoi_toInt] at hatoi
  exact Int64.toInt_inj.1 (Option.some.inj hatoi).symm

/-- Another place for the time lies inside the content. -/
theorem time_elsewhere {ts : Int64} {content z p c : GoString} (hp : bar ∉ p)
    (h : itoa ts.toInt ++ bar :: content = z ++ bar :: (p ++ bar :: c)) :
    p ∈ closedPieces bar content := by
  have hfirst : p ∈ p.splitOn bar := by
    rw [List.splitOn_eq_singleton hp]
    exact List.mem_cons_self ..
  rcases first_separator (bar_notMem_itoa _) h with ⟨-, hc⟩ | ⟨z', -, hc⟩
  · rw [hc, closedPieces_append]
    exact List.mem_append_left _ hfirst
  · rw [hc, closedPieces_append, closedPieces_append]
    exact List.mem_append_right _ (List.mem_append_left _ hfirst)

/-- The fields of a message are determined when they can be told apart. -/
theorem envelopePayload_inj {a r c a' r' c' : GoString} {t t' : Int64} (hu : Unambiguous a r c)
    (h : envelopePayload a' r' t' c' = envelopePayload a r t c) :
    a' = a ∧ r' = r ∧ t' = t ∧ c' = c := by
  obtain ⟨ha, hr, hc⟩ := hu
  have hnot : ∀ z, itoa t.toInt ++ bar :: c ≠ z ++ bar :: (itoa t'.toInt ++ bar :: c') := by
    intro z hz
    exact hc _ (time_elsewhere (bar_notMem_itoa _) hz) ⟨t', rfl⟩
  unfold envelopePayload at h
  rcases first_separator ha h.symm with ⟨rfl, hrecipient⟩ | ⟨z, rfl, hauthor⟩
  · rcases first_separator hr hrecipient with ⟨rfl, htime⟩ | ⟨z, rfl, htime⟩
    · rcases first_separator (bar_notMem_itoa _) htime with ⟨ht, hcontent⟩ | ⟨z, ht, -⟩
      · exact ⟨rfl, rfl, itoa_toInt_inj ht, hcontent.symm⟩
      · exact absurd (ht ▸ by simp) (bar_notMem_itoa t'.toInt)
    · exact absurd htime (hnot z)
  · -- The author takes in more than its own phone.
    rw [show z ++ bar :: (r' ++ bar :: (itoa t'.toInt ++ bar :: c')) =
      (z ++ bar :: r') ++ bar :: (itoa t'.toInt ++ bar :: c') by simp] at hauthor
    rcases first_separator hr hauthor with ⟨hz, -⟩ | ⟨z', -, htime⟩
    · exact absurd (hz ▸ by simp) hr
    · exact absurd htime (hnot z')

/-- Where they cannot, other fields make the same message. -/
theorem exists_collision {a r c : GoString} (t : Int64) (hu : ¬ Unambiguous a r c) :
    ∃ a' r' t' c', envelopePayload a' r' t' c' = envelopePayload a r t c ∧
      (a', r', t', c') ≠ (a, r, t, c) := by
  by_cases ha : bar ∈ a
  · obtain ⟨x, y, rfl, -⟩ := List.eq_append_cons_of_mem ha
    refine ⟨x, y ++ bar :: r, t, c, by simp [envelopePayload], fun h => ?_⟩
    have hx := congrArg (fun q : GoString × GoString × Int64 × GoString => q.1.length) h
    simp at hx
  by_cases hr : bar ∈ r
  · obtain ⟨x, y, rfl, -⟩ := List.eq_append_cons_of_mem hr
    refine ⟨a ++ bar :: x, y, t, c, by simp [envelopePayload], fun h => ?_⟩
    have hx := congrArg (fun q : GoString × GoString × Int64 × GoString => q.1.length) h
    simp at hx
  · obtain ⟨p, hp, t', rfl⟩ : ∃ p ∈ closedPieces bar c, IsTimestamp p := by
      by_contra hno
      exact hu ⟨ha, hr, fun p hp htime => hno ⟨p, hp, htime⟩⟩
    obtain ⟨after, rfl | ⟨before, rfl⟩⟩ := exists_of_mem_closedPieces hp
    · refine ⟨a, r ++ bar :: itoa t.toInt, t', after, by simp [envelopePayload], fun h => ?_⟩
      have hx := congrArg (fun q : GoString × GoString × Int64 × GoString => q.2.1.length) h
      simp at hx
    · refine ⟨a, r ++ bar :: (itoa t.toInt ++ bar :: before), t', after, by simp [envelopePayload],
        fun h => ?_⟩
      have hx := congrArg (fun q : GoString × GoString × Int64 × GoString => q.2.1.length) h
      simp at hx

/-! ## Signatures -/

/-- The key pair and the signature of a message are as they should be: they have their sizes, and the
signature is one of this message only. -/
structure Ed25519.Ideal (E : Ed25519) (pub priv message : GoString) : Prop where
  publicKey : pub.length = publicKeySize
  signature : (E.sign priv message).length = signatureSize
  verify : ∀ message', E.verify pub message' (E.sign priv message) = true ↔ message' = message

/-- An envelope with the signature of a message verifies when it is about that message. -/
theorem verifyEnvelope_iff {E : Ed25519} {pub priv message : GoString} (h : E.Ideal pub priv message)
    {e : Envelope} (hsig : hexDecode e.signature = some (E.sign priv message)) :
    verifyEnvelope E (hexEncode pub) e = true ↔ e.payload = message := by
  unfold verifyEnvelope
  rw [hexDecode_encode]
  dsimp only
  rw [if_neg (by rw [h.publicKey]; exact fun hne => hne rfl), hsig]
  dsimp only
  rw [if_neg (by rw [h.signature]; exact fun hne => hne rfl)]
  exact h.verify e.payload

/-- The fields of an envelope that are signed. -/
def Envelope.signed (e : Envelope) : GoString × GoString × Int64 × GoString :=
  (e.authorPhone, e.recipientPhone, e.signedTs, e.content)

/-- No other fields make the message of these, and the signature that is made for these is not accepted
for others. -/
def Binds (E : Ed25519) (pub priv authorPhone recipientPhone : GoString) (ts : Int64)
    (content : GoString) : Prop :=
  (∀ a r t c,
    envelopePayload a r t c = envelopePayload authorPhone recipientPhone ts content →
      (a, r, t, c) = (authorPhone, recipientPhone, ts, content)) ∧
  ∀ e : Envelope,
    hexDecode e.signature = hexDecode (signEnvelope E priv ts authorPhone recipientPhone content).1 →
      verifyEnvelope E (hexEncode pub) e = true →
        e.signed = (authorPhone, recipientPhone, ts, content)

/-- A signature binds the fields exactly when they can be told apart. -/
theorem binds_iff {E : Ed25519} {pub priv authorPhone recipientPhone content : GoString} {ts : Int64}
    (h : E.Ideal pub priv (envelopePayload authorPhone recipientPhone ts content)) :
    Binds E pub priv authorPhone recipientPhone ts content ↔
      Unambiguous authorPhone recipientPhone content := by
  constructor
  · rintro ⟨hpayload, -⟩
    by_contra hu
    obtain ⟨a, r, t, c, heq, hne⟩ := exists_collision ts hu
    exact hne (hpayload a r t c heq)
  · intro hu
    refine ⟨fun a r t c heq => ?_, fun e hsig hverify => ?_⟩
    · obtain ⟨rfl, rfl, rfl, rfl⟩ := envelopePayload_inj hu heq
      rfl
    · unfold signEnvelope at hsig
      rw [hexDecode_encode] at hsig
      obtain ⟨ha, hr, ht, hc⟩ := envelopePayload_inj hu ((verifyEnvelope_iff h hsig).1 hverify)
      unfold Envelope.signed
      rw [ha, hr, ht, hc]

/-! ## A key pair -/

/-- A public key. -/
def samplePublic : GoString :=
  (hexDecode "d75a980182b10ab7d54bfed3c964073a0ee172f3daa62325af021a68f707511a").getD []

/-- Its private key, which ends in it. -/
def samplePrivate : GoString :=
  (hexDecode "9d61b19deffd5a60ba844af492ec2cc44449c5697b326919703bac031cae7f60").getD [] ++
    samplePublic

/-- The signature of a message. -/
def sampleEd25519 (message signature : GoString) : Ed25519 where
  sign _ _ := signature
  verify pub message' signature' := pub = samplePublic ∧ message' = message ∧ signature' = signature

/-- A broadcast. -/
def helloMessage : GoString := envelopePayload "+33600000000" "*" 1 "hello"

/-- Its signature. -/
def helloSignature : GoString :=
  (hexDecode ("e8d669ba7214127b3cb36fe426f5a7408a31e60a7a7eef95fd1c76cbdb77e1ce" ++
    str "bbc2ea3c561b3ec86eeab98a2cd31d49a3c53fab0b1d8d8b5c0e0849a503d50f")).getD []

/-- A broadcast that quotes a number in front of a bar. -/
def quoteMessage : GoString := envelopePayload "+33600000000" "*" 1 "2|hello"

/-- Its signature. -/
def quoteSignature : GoString :=
  (hexDecode ("f58417bab7857ffe3265efebdf1e7dd77c0019ee18b23c088e58e18975f5382d" ++
    str "c7b9a14f3432e77e9b3859812ba13dfa4dd1186d95f9bd39c1f63031a5806900")).getD []

theorem sampleEd25519_ideal {message signature : GoString} (h : signature.length = signatureSize) :
    (sampleEd25519 message signature).Ideal samplePublic samplePrivate message where
  publicKey := by decide
  signature := h
  verify message' := by simp [sampleEd25519]

set_option maxRecDepth 8000 in
theorem binds_hello :
    Unambiguous "+33600000000" "*" "hello" ∧
      Binds (sampleEd25519 helloMessage helloSignature) samplePublic samplePrivate "+33600000000" "*" 1
        "hello" := by
  have hu : Unambiguous "+33600000000" "*" "hello" := by
    have hpieces : closedPieces bar (str "hello") = [] := by decide
    refine ⟨by decide, by decide, ?_⟩
    rw [hpieces]
    exact nofun
  exact ⟨hu, (binds_iff (sampleEd25519_ideal (by decide))).2 hu⟩

/-- The same message with the time 2, for a recipient nobody has signed for. -/
def quoteForged : Envelope where
  id := 1
  authorPhone := "+33600000000"
  recipientPhone := "*|1"
  content := "hello"
  signature := hexEncode quoteSignature
  signedTs := 2
  createdAt := []

set_option maxRecDepth 8000 in
/-- The signature of one envelope is accepted for another one. -/
theorem quote_forged :
    let E := sampleEd25519 quoteMessage quoteSignature
    E.Ideal samplePublic samplePrivate quoteMessage ∧
      quoteForged.payload = quoteMessage ∧
      quoteForged.signature = (signEnvelope E samplePrivate 1 "+33600000000" "*" "2|hello").1 ∧
      verifyEnvelope E (hexEncode samplePublic) quoteForged = true ∧
      quoteForged.signed ≠ (str "+33600000000", str "*", 1, str "2|hello") := by
  refine ⟨sampleEd25519_ideal (by decide), by decide,
    by decide, by decide, ?_⟩
  intro h
  have htime : (2 : Int64) = 1 := congrArg (fun q => q.2.2.1) h
  exact absurd htime (by decide)

end Gafam.Relay
