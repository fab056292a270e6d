import Gafam.Relay.Proofs.PublishProofs
import Gafam.Relay.Scan
import Mathlib.Data.List.Perm.Subperm

/-!
# What a scan takes in

A scan takes in the envelopes of the feed that are addressed to the node and not rejected, one entry for
each author and content. The signatures are checked against the key that the link holds at the time,
which is the last one that the directory has given for it.
-/

namespace Gafam.Relay

open Gafam.Go Gafam.Lib

/-! ## Ingestion -/

section Ingestion

variable {E : Ed25519} {selfPhone linkPubKey : GoString} {linkId : Nat}

/-- The envelope is addressed to this node, and is not rejected. -/
def Envelope.Taken (E : Ed25519) (selfPhone linkPubKey : GoString) (e : Envelope) : Prop :=
  ¬ e.ForOthers selfPhone ∧ ¬ e.Rejected E linkPubKey

/-- The entry that is made of an envelope. -/
def Envelope.entry (linkId : Nat) (e : Envelope) : InboxEntry :=
  ⟨linkId, e.authorPhone, e.content, e.signature⟩

/-- What one envelope does to the inbox. -/
theorem ingest_cases (acc : Ingestion) (e : Envelope) :
    (e.Taken E selfPhone linkPubKey ∧ ¬ HasEntry acc.inbox linkId e.authorPhone e.content ∧
        (ingest E selfPhone linkId linkPubKey acc e).inbox = acc.inbox.insert (e.entry linkId)) ∨
      ((e.Taken E selfPhone linkPubKey → HasEntry acc.inbox linkId e.authorPhone e.content) ∧
        (ingest E selfPhone linkId linkPubKey acc e).inbox = acc.inbox) := by
  unfold ingest
  by_cases hothers : e.ForOthers selfPhone
  · rw [if_pos hothers]
    exact .inr ⟨fun h => absurd hothers h.1, rfl⟩
  rw [if_neg hothers]
  by_cases hrejected : e.Rejected E linkPubKey
  · rw [if_pos hrejected]
    exact .inr ⟨fun h => absurd hrejected h.2, rfl⟩
  rw [if_neg hrejected]
  by_cases hentry : HasEntry acc.inbox linkId e.authorPhone e.content
  · rw [if_pos hentry]
    exact .inr ⟨fun _ => hentry, rfl⟩
  · rw [if_neg hentry]
    exact .inl ⟨⟨hothers, hrejected⟩, hentry, rfl⟩

theorem hasEntry_insert {inbox : Table InboxEntry} {x : InboxEntry} {id : Nat}
    {author content : GoString} :
    HasEntry (inbox.insert x) id author content ↔
      HasEntry inbox id author content ∨
        (x.linkId = id ∧ x.content = content ∧ x.authorPhone = author) := by
  unfold HasEntry
  constructor
  · rintro ⟨r, hr, h⟩
    rcases Table.mem_insert.1 hr with hr | rfl
    · exact .inl ⟨r, hr, h⟩
    · exact .inr h
  · rintro (⟨r, hr, h⟩ | h)
    · exact ⟨r, Table.mem_insert.2 (.inl hr), h⟩
    · exact ⟨_, Table.mem_insert.2 (.inr rfl), h⟩

/-- A row that a scan adds is made of an envelope of the feed. -/
theorem mem_foldl_ingest {envelopes : List Envelope} {acc : Ingestion} {r : Row InboxEntry}
    (h : r ∈ (envelopes.foldl (ingest E selfPhone linkId linkPubKey) acc).inbox.rows) :
    r ∈ acc.inbox.rows ∨
      ∃ e ∈ envelopes, e.Taken E selfPhone linkPubKey ∧ r.val = e.entry linkId := by
  induction envelopes generalizing acc with
  | nil => exact .inl h
  | cons e envelopes ih =>
    rw [List.foldl_cons] at h
    rcases ih h with h | ⟨e', he', htaken, hr⟩
    · have hcases := @ingest_cases E selfPhone linkPubKey linkId acc e
      rcases hcases with ⟨htaken, -, hinbox⟩ | ⟨-, hinbox⟩
      · rw [hinbox] at h
        rcases Table.mem_insert.1 h with h | rfl
        · exact .inl h
        · exact .inr ⟨e, List.mem_cons_self .., htaken, rfl⟩
      · rw [hinbox] at h
        exact .inl h
    · exact .inr ⟨e', List.mem_cons_of_mem _ he', htaken, hr⟩

/-- There is an entry for each author and content that is taken in. -/
theorem hasEntry_foldl_ingest {envelopes : List Envelope} {acc : Ingestion}
    {author content : GoString} :
    HasEntry (envelopes.foldl (ingest E selfPhone linkId linkPubKey) acc).inbox linkId author content ↔
      HasEntry acc.inbox linkId author content ∨
        ∃ e ∈ envelopes, e.Taken E selfPhone linkPubKey ∧ e.authorPhone = author ∧
          e.content = content := by
  induction envelopes generalizing acc with
  | nil => simp
  | cons e envelopes ih =>
    have hstep : HasEntry (ingest E selfPhone linkId linkPubKey acc e).inbox linkId author content ↔
        HasEntry acc.inbox linkId author content ∨
          (e.Taken E selfPhone linkPubKey ∧ e.authorPhone = author ∧ e.content = content) := by
      have hcases := @ingest_cases E selfPhone linkPubKey linkId acc e
      rcases hcases with ⟨htaken, -, hinbox⟩ | ⟨hold, hinbox⟩
      · rw [hinbox, hasEntry_insert]
        unfold Envelope.entry
        simp [htaken, and_comm]
      · rw [hinbox]
        constructor
        · exact .inl
        · rintro (h | ⟨htaken, rfl, rfl⟩)
          · exact h
          · exact hold htaken
    rw [List.foldl_cons, ih, hstep]
    simp only [List.mem_cons, exists_eq_or_imp, or_assoc]

end Ingestion

/-! ## Scans -/

/-- A scan goes wrong and changes nothing, or reads a feed. -/
theorem feedScan_cases (E : Ed25519) (phone : GoString)
    (fetch : GoString → Except GoString GoString) (s : FeedNode) :
    (feedScanHandler E phone fetch s).2 = s ∨
      ∃ link body, s.link phone = some link ∧ link.val.vpcUrl ≠ [] ∧
        fetch (feedUrl link.val.vpcUrl) = .ok body ∧
        (feedScanHandler E phone fetch s).2 =
          { s with
            inbox := ((decodeFeed body).foldl
              (ingest E s.getSelfPhone link.id link.val.publicKey) ⟨s.inbox, 0, 0⟩).inbox } := by
  unfold feedScanHandler
  by_cases hphone : phone = []
  · rw [if_pos hphone]
    exact .inl rfl
  rw [if_neg hphone]
  cases hlink : s.link phone with
  | none => exact .inl rfl
  | some link =>
    dsimp only
    by_cases hurl : link.val.vpcUrl = []
    · rw [if_pos hurl]
      exact .inl rfl
    rw [if_neg hurl]
    cases hfetch : fetch (feedUrl link.val.vpcUrl) with
    | error err => exact .inl rfl
    | ok body => exact .inr ⟨link, body, rfl, hurl, hfetch, rfl⟩

/-- Requests about links leave the inbox alone. -/
theorem inbox_upsertLink (s : FeedNode) (l : Link) : (s.upsertLink l).inbox = s.inbox := by
  unfold FeedNode.upsertLink
  split <;> rfl

theorem inbox_post {E : Ed25519} {s s' : FeedNode} {body : Option (GoString × GoString)}
    {reply : Option DirectoryReply} (h : feedStep E s (.post body reply) = some s') :
    s'.inbox = s.inbox := by
  unfold feedStep at h
  dsimp only at h
  split at h
  · rename_i t ht
    cases h
    unfold linksPost at ht
    split at ht
    · cases ht
    · split_ifs at ht
      cases ht
      exact inbox_upsertLink _ _
  · cases h
    rfl

theorem inbox_delete {E : Ed25519} {s s' : FeedNode} {id : GoString}
    (h : feedStep E s (.delete id) = some s') : s'.inbox = s.inbox := by
  unfold feedStep linksDelete at h
  dsimp only at h
  by_cases hid : id = []
  · rw [if_pos hid] at h
    cases h
    rfl
  · rw [if_neg hid] at h
    cases h
    rfl

/-! ## The keys of a link -/

/-- The last public key that a link has had and that is not empty, `old` being what is known of the
keys before. -/
def lastKey (s : FeedNode) (old : Nat → GoString) (id : Nat) : GoString :=
  match s.links.rows.find? fun r => r.id = id with
  | some r => if r.val.publicKey = [] then old id else r.val.publicKey
  | none => old id

/-- The history of the keys. -/
def noteKeys (E : Ed25519) (s : FeedNode) (a : FeedAction) (old : Nat → GoString) : Nat → GoString :=
  match feedStep E s a with
  | some s' => lastKey s' old
  | none => old

/-- A key that a link holds is the last one it has had. -/
def KeysNoted (p : FeedNode × (Nat → GoString)) : Prop :=
  ∀ r ∈ p.1.links.rows, r.val.publicKey ≠ [] → p.2 r.id = r.val.publicKey

theorem keysNoted_lastKey (s : FeedNode) (old : Nat → GoString) : KeysNoted (s, lastKey s old) := by
  intro r hr hkey
  have hfind : s.links.rows.find? (fun x => x.id = r.id) = some r := by
    cases h : s.links.rows.find? fun x => x.id = r.id with
    | none =>
      have hno := List.find?_eq_none.1 h r hr
      exact absurd (decide_eq_true rfl) hno
    | some x =>
      have hx := List.mem_of_find?_eq_some h
      have hid : x.id = r.id := by simpa using List.find?_some h
      rw [Table.row_unique hx hr hid]
  dsimp only
  unfold lastKey
  rw [hfind]
  exact if_neg hkey

theorem keysNoted_step {E : Ed25519} {p p' : FeedNode × (Nat → GoString)} {a : FeedAction}
    (h : withHistory (feedStep E) (noteKeys E) p a = some p') : KeysNoted p' := by
  obtain ⟨hs, hold⟩ := withHistory_eq_some.1 h
  have hlast : noteKeys E p.1 a p.2 = lastKey p'.1 p.2 := by
    unfold noteKeys
    rw [hs]
  have hnoted := keysNoted_lastKey p'.1 p.2
  rw [← hlast, ← hold] at hnoted
  exact hnoted

theorem keysNoted_run {E : Ed25519} {s₀ : FeedNode} {p : FeedNode × (Nat → GoString)}
    {old : Nat → GoString} {as : List FeedAction}
    (hrun : runSteps (withHistory (feedStep E) (noteKeys E)) (s₀, lastKey s₀ old) as = some p) :
    KeysNoted p :=
  runSteps_invariant (fun _ _ _ _ h => keysNoted_step h) hrun (keysNoted_lastKey s₀ old)

/-- Where a row of the inbox comes from: a scan of the link has read it from an envelope of the feed
that is addressed to this node. A signature is checked if the link holds a key, which is then the last
one that it has had. -/
def Origin (E : Ed25519) (s : FeedNode) (lastKeys : Nat → GoString) (a : FeedAction)
    (r : InboxEntry) : Prop :=
  ∃ phone fetch link body e, a = .scan phone fetch ∧ s.link phone = some link ∧
    link.val.vpcUrl ≠ [] ∧ fetch (feedUrl link.val.vpcUrl) = .ok body ∧ e ∈ decodeFeed body ∧
    ¬ e.ForOthers s.getSelfPhone ∧ r = e.entry link.id ∧
    (e.signature ≠ [] → link.val.publicKey ≠ [] →
      link.val.publicKey = lastKeys link.id ∧ verifyEnvelope E (lastKeys link.id) e = true)

theorem inbox_origin {E : Ed25519} {s₀ s s' : FeedNode} {lastKeys : Nat → GoString}
    {as : List FeedAction} {a : FeedAction}
    (hrun : runSteps (withHistory (feedStep E) (noteKeys E)) (s₀, lastKey s₀ fun _ => []) as =
      some (s, lastKeys))
    (hstep : feedStep E s a = some s') :
    ∀ r ∈ s'.inbox.rows, r ∉ s.inbox.rows → Origin E s lastKeys a r.val := by
  intro r hr hnew
  have hkeys := keysNoted_run hrun
  cases a with
  | setSelfPhone phone =>
    cases hstep
    exact absurd hr hnew
  | post body reply =>
    rw [inbox_post hstep] at hr
    exact absurd hr hnew
  | delete id =>
    rw [inbox_delete hstep] at hr
    exact absurd hr hnew
  | scan phone fetch =>
    cases hstep
    rcases feedScan_cases E phone fetch s with hsame | ⟨link, body, hlink, hurl, hfetch, hs'⟩
    · rw [hsame] at hr
      exact absurd hr hnew
    rw [hs'] at hr
    rcases mem_foldl_ingest hr with hr | ⟨e, he, ⟨hothers, hrejected⟩, hentry⟩
    · exact absurd hr hnew
    refine ⟨phone, fetch, link, body, e, rfl, hlink, hurl, hfetch, he, hothers, hentry, ?_⟩
    intro hsig hkey
    have hlast := hkeys link (List.mem_of_find?_eq_some hlink) hkey
    dsimp only at hlast
    rw [hlast]
    refine ⟨rfl, ?_⟩
    by_contra hverify
    exact hrejected ⟨⟨hsig, hkey⟩, (Bool.not_eq_true _).mp hverify⟩

/-! ## A link and its feeds -/

/-- A node without links. -/
def emptyNode : FeedNode := ⟨"+33611111111", Table.empty, Table.empty⟩

/-- The request that adds the link. -/
def addLink (publicKey : GoString) : FeedAction :=
  .post (some ("+33600000000", "Ada")) (some ⟨200, "https://ada.example", publicKey⟩)

/-- The broadcast of the linked node. -/
def helloEnvelope : Envelope where
  id := 1
  authorPhone := "+33600000000"
  recipientPhone := "*"
  content := "hello"
  signature := hexEncode helloSignature
  signedTs := 1
  createdAt := "2026-01-01T00:00:00Z"

/-- An envelope in the name of somebody else. -/
def forgedEnvelope : Envelope where
  id := 2
  authorPhone := "+33699999999"
  recipientPhone := "*"
  content := "send money"
  signature := "00"
  signedTs := 1
  createdAt := "2026-01-01T00:00:00Z"

/-- The scan of a feed with one envelope. -/
def scanOf (e : Envelope) : FeedAction := .scan "0600000000" fun _ => .ok (marshalFeed [e])

/-- What can be signed and verified with the key of the linked node. -/
def helloSigner : Ed25519 := sampleEd25519 helloMessage helloSignature

/-- The steps with their history. -/
abbrev helloStep := withHistory (feedStep helloSigner) (noteKeys helloSigner)

/-- What is looked at after a run: the link, the inbox, and the last key of the link. -/
def glance (p : FeedNode × (Nat → GoString)) : List Link × List InboxEntry × GoString :=
  (p.1.links.rows.map Row.val, p.1.inbox.rows.map Row.val, p.2 1)

/-- The link that is added. -/
def adaLink (publicKey : GoString) : Link := ⟨"0600000000", "Ada", "https://ada.example", publicKey⟩

/-- A run from the empty node. -/
def helloRun (as : List FeedAction) : Option (FeedNode × (Nat → GoString)) :=
  runSteps helloStep (emptyNode, lastKey emptyNode fun _ => []) as

theorem inbox_origin_hello :
    ∃ s lastKeys s', helloRun [addLink (hexEncode samplePublic)] = some (s, lastKeys) ∧
      feedStep helloSigner s (scanOf helloEnvelope) = some s' ∧
      ∀ r ∈ s'.inbox.rows, r ∉ s.inbox.rows →
        Origin helloSigner s lastKeys (scanOf helloEnvelope) r.val := by
  have hsome : (helloRun [addLink (hexEncode samplePublic)]).isSome = true := by decide
  obtain ⟨⟨s, lastKeys⟩, hrun⟩ := Option.isSome_iff_exists.1 hsome
  exact ⟨s, lastKeys, _, hrun, rfl, inbox_origin hrun rfl⟩

set_option maxRecDepth 8000 in
/-- The linked node calls itself by another number than the link does, and a link whose key the
directory has lost takes in what anybody has written. -/
theorem entries_of_others :
    (helloRun [addLink (hexEncode samplePublic), scanOf helloEnvelope]).map glance =
        some ([adaLink (hexEncode samplePublic)],
          [⟨1, "+33600000000", "hello", hexEncode helloSignature⟩], hexEncode samplePublic) ∧
      str "+33600000000" ≠ "0600000000" ∧
      (helloRun [addLink (hexEncode samplePublic), addLink [], scanOf forgedEnvelope]).map glance =
        some ([adaLink []], [⟨1, "+33699999999", "send money", "00"⟩], hexEncode samplePublic) ∧
      verifyEnvelope helloSigner (hexEncode samplePublic) forgedEnvelope = false := by
  refine ⟨?_, by decide, ?_, by decide⟩
  · decide
  · decide

/-!
## Which envelopes arrive

A scan sees the newest rows of a feed, of all recipients together, and remembers nothing of earlier
scans but what lies in the inbox. So an envelope arrives when it is among these rows at the time of a
scan, and envelopes that say the same arrive as one.
-/

variable {E : Ed25519} {format : Nat → GoString} {phone : GoString}

/-! ### Scans of a link -/

/-- The node can scan the link. -/
structure Linked (s : FeedNode) (phone : GoString) (link : Row Link) : Prop where
  phone_ne : phone ≠ []
  found : s.link phone = some link
  url_ne : link.val.vpcUrl ≠ []

/-- A scan that reads a feed. -/
theorem feedScan_linked {s : FeedNode} {link : Row Link} (h : Linked s phone link) (body : GoString) :
    (feedScanHandler E phone (fun _ => .ok body) s).2 =
      { s with
        inbox := ((decodeFeed body).foldl (ingest E s.getSelfPhone link.id link.val.publicKey)
          ⟨s.inbox, 0, 0⟩).inbox } := by
  unfold feedScanHandler
  rw [if_neg h.phone_ne, h.found]
  dsimp only
  rw [if_neg h.url_ne]

/-- A scan that reaches nobody. -/
theorem feedScan_unreachable (s : FeedNode) (err : GoString) :
    (feedScanHandler E phone (fun _ => .error err) s).2 = s := by
  rcases feedScan_cases E phone (fun _ => .error err) s with h | ⟨link, body, -, -, hfetch, -⟩
  · exact h
  · cases hfetch

/-- The envelope has been read by this action, and taken in. -/
def TakenBy (E : Ed25519) (format : Nat → GoString) (selfPhone : GoString) (link : Row Link)
    (a : PullAction) (authorPhone content : GoString) : Prop :=
  ∃ served, a = .scan served ∧ ∃ e ∈ decodeFeed (feedBody format served),
    e.Taken E selfPhone link.val.publicKey ∧ e.authorPhone = authorPhone ∧ e.content = content

/-- One step keeps the link, and adds to the inbox what it takes in. -/
theorem pullStep_spec {s s' : Pull} {a : PullAction} {link : Row Link}
    (hlink : Linked s.node phone link) (h : pullStep E format phone s a = some s') :
    Linked s'.node phone link ∧ s'.node.getSelfPhone = s.node.getSelfPhone ∧
      ∀ authorPhone content, HasEntry s'.node.inbox link.id authorPhone content ↔
        HasEntry s.node.inbox link.id authorPhone content ∨
          TakenBy E format s.node.getSelfPhone link a authorPhone content := by
  cases a with
  | publish p =>
    cases h
    refine ⟨hlink, rfl, fun authorPhone content => ⟨.inl, ?_⟩⟩
    rintro (h | ⟨served, h, -⟩)
    · exact h
    · cases h
  | unreachable err =>
    cases h
    dsimp only
    rw [feedScan_unreachable]
    refine ⟨hlink, rfl, fun authorPhone content => ⟨.inl, ?_⟩⟩
    rintro (h | ⟨served, h, -⟩)
    · exact h
    · cases h
  | scan served =>
    unfold pullStep at h
    dsimp only at h
    by_cases hfeed : publicFeed none s.remote served
    · rw [if_pos hfeed] at h
      cases h
      dsimp only
      rw [feedScan_linked hlink]
      refine ⟨⟨hlink.phone_ne, hlink.found, hlink.url_ne⟩, rfl, fun authorPhone content => ?_⟩
      dsimp only
      rw [hasEntry_foldl_ingest]
      unfold TakenBy
      simp
    · rw [if_neg hfeed] at h
      cases h

/-- After a run the inbox has what it had before, and what the scans have taken in. -/
theorem hasEntry_run {s₀ s : Pull} {link : Row Link} {as : List PullAction}
    (hlink : Linked s₀.node phone link) (hrun : runSteps (pullStep E format phone) s₀ as = some s)
    (authorPhone content : GoString) :
    HasEntry s.node.inbox link.id authorPhone content ↔
      HasEntry s₀.node.inbox link.id authorPhone content ∨
        ∃ a ∈ as, TakenBy E format s₀.node.getSelfPhone link a authorPhone content := by
  induction as generalizing s₀ with
  | nil =>
    cases hrun
    simp
  | cons a as ih =>
    obtain ⟨t, ht, hrun⟩ := runSteps_cons_eq_some.1 hrun
    obtain ⟨hlink', hself, hstep⟩ := pullStep_spec hlink ht
    rw [ih hlink' hrun, hstep, hself]
    simp only [List.mem_cons, exists_eq_or_imp, or_assoc]

/-! ### Envelopes that can arrive -/

theorem hexValue_ascii {c : UInt8} {n : Nat} (h : hexValue c = some n) : c.toNat < 0x80 := by
  unfold hexValue at h
  by_cases hdigit : isDigit c = true
  · unfold isDigit at hdigit
    simp only [Bool.and_eq_true, decide_eq_true_eq, UInt8.le_iff_toNat_le] at hdigit
    have h39 : (0x39 : UInt8).toNat = 0x39 := rfl
    omega
  rw [if_neg hdigit] at h
  by_cases hlower : 0x61 ≤ c ∧ c ≤ 0x66
  · have h66 : (0x66 : UInt8).toNat = 0x66 := rfl
    have := UInt8.le_iff_toNat_le.1 hlower.2
    omega
  rw [if_neg hlower] at h
  by_cases hupper : 0x41 ≤ c ∧ c ≤ 0x46
  · have h46 : (0x46 : UInt8).toNat = 0x46 := rfl
    have := UInt8.le_iff_toNat_le.1 hupper.2
    omega
  · rw [if_neg hupper] at h
    cases h

/-- A signature in hexadecimal digits is UTF-8. -/
theorem validString_of_hexDecode {s bytes : GoString} (h : hexDecode s = some bytes) :
    validString s = true := by
  refine validString_ascii ?_
  induction s using hexDecode.induct generalizing bytes with
  | case1 => exact nofun
  | case2 c => cases h
  | case3 a b rest ih =>
    unfold hexDecode at h
    simp only [Option.bind_eq_bind, Option.bind_eq_some_iff] at h
    obtain ⟨x, hx, y, hy, more, hmore, -⟩ := h
    intro c hc
    simp only [List.mem_cons] at hc
    rcases hc with rfl | rfl | hc
    · exact hexValue_ascii hx
    · exact hexValue_ascii hy
    · exact ih hmore c hc

theorem validString_of_verify {pubKeyHex : GoString} {e : Envelope}
    (h : verifyEnvelope E pubKeyHex e = true) : validString e.signature = true := by
  unfold verifyEnvelope at h
  split at h
  · cases h
  · split_ifs at h
    split at h
    · cases h
    · rename_i sig hsig
      exact validString_of_hexDecode hsig

/-- The envelope is addressed to the node, its texts are UTF-8, and the link has nothing to say against
its signature. -/
structure Deliverable (E : Ed25519) (selfPhone linkPubKey : GoString) (e : Envelope) : Prop where
  authorPhone : validString e.authorPhone = true
  recipientPhone : validString e.recipientPhone = true
  content : validString e.content = true
  addressed : ¬ e.ForOthers selfPhone
  accepted : ¬ e.Rejected E linkPubKey

/-- Such an envelope is taken in where it arrives. -/
theorem Deliverable.taken {selfPhone linkPubKey : GoString} {e : Envelope}
    (h : Deliverable E selfPhone linkPubKey e) :
    e.received.Taken E selfPhone linkPubKey ∧ e.received.authorPhone = e.authorPhone ∧
      e.received.content = e.content := by
  have hpayload : e.received.payload = e.payload :=
    (payload_received_iff e).2 ⟨h.authorPhone, h.recipientPhone, h.content⟩
  refine ⟨⟨?_, ?_⟩, reencode_valid h.authorPhone, reencode_valid h.content⟩
  · have hrecipient : e.received.recipientPhone = e.recipientPhone :=
      reencode_valid h.recipientPhone
    unfold Envelope.ForOthers
    rw [hrecipient]
    exact h.addressed
  · rintro ⟨⟨hsig, hkey⟩, hverify⟩
    have hsig' : e.signature ≠ [] := by
      intro hnil
      refine hsig ?_
      unfold Envelope.received
      dsimp only
      rw [hnil, reencode_nil]
    have hverified : verifyEnvelope E linkPubKey e = true := by
      by_contra hno
      exact h.accepted ⟨⟨hsig', hkey⟩, (Bool.not_eq_true _).mp hno⟩
    have hsame : e.received.signature = e.signature :=
      reencode_valid (validString_of_verify hverified)
    unfold verifyEnvelope at hverify hverified
    rw [hpayload, hsame, hverified] at hverify
    cases hverify

/-- What is served and fits is read. -/
theorem takenBy_scan {selfPhone : GoString} {link : Row Link} {served : List (Row Published)}
    (hfit : (feedBody format served).length ≤ feedLimit) {r : Row Published} (hr : r ∈ served)
    (hd : Deliverable E selfPhone link.val.publicKey (Published.envelope format r)) :
    TakenBy E format selfPhone link (.scan served) r.val.authorPhone r.val.content := by
  obtain ⟨htaken, hauthor, hcontent⟩ := hd.taken
  refine ⟨served, rfl, (Published.envelope format r).received, ?_, htaken, hauthor, hcontent⟩
  unfold feedBody at hfit ⊢
  rw [decodeFeed_marshal hfit]
  exact List.mem_map_of_mem (List.mem_map_of_mem hr)

/-- A feed that is short enough is served as a whole. -/
theorem Newest.all {limit : Nat} {rows served : List (Row Published)} (h : Newest limit rows served)
    (hlen : rows.length ≤ limit) {r : Row Published} (hr : r ∈ rows) : r ∈ served := by
  have hsub : served.Subperm rows := List.subperm_of_subset h.nodup h.subset
  have hperm : served.Perm rows := hsub.perm_of_length_le (by rw [h.length]; omega)
  exact hperm.mem_iff.2 hr

/-! ### Runs -/

/-- Every scan of a run delivers what it has been served, and nothing else lies in the inbox: of the rows
that can arrive each one that is served by an answer that fits has an entry with its author and content
at the end, and an entry for an author and a content that was not there at the start comes from an
envelope with these that a scan has read. -/
theorem pulled {s₀ s : Pull} {link : Row Link} {as : List PullAction}
    (hlink : Linked s₀.node phone link) (hrun : runSteps (pullStep E format phone) s₀ as = some s) :
    (∀ before served after, as = before ++ .scan served :: after →
      ∃ t, runSteps (pullStep E format phone) s₀ before = some t ∧
        Newest 50 t.remote.rows served ∧
        ((feedBody format served).length ≤ feedLimit →
          ∀ r ∈ t.remote.rows, (r ∈ served ∨ t.remote.rows.length ≤ 50) →
            Deliverable E s₀.node.getSelfPhone link.val.publicKey (Published.envelope format r) →
              HasEntry s.node.inbox link.id r.val.authorPhone r.val.content)) ∧
    ∀ authorPhone content, HasEntry s.node.inbox link.id authorPhone content ↔
      HasEntry s₀.node.inbox link.id authorPhone content ∨
        ∃ a ∈ as, TakenBy E format s₀.node.getSelfPhone link a authorPhone content := by
  have hentries := hasEntry_run hlink hrun
  refine ⟨?_, hentries⟩
  rintro before served after rfl
  obtain ⟨t, hbefore, hafter⟩ := runSteps_append_eq_some.1 hrun
  obtain ⟨t', hscan, -⟩ := runSteps_cons_eq_some.1 hafter
  have hfeed : publicFeed none t.remote served := by
    unfold pullStep at hscan
    dsimp only at hscan
    by_contra hno
    rw [if_neg hno] at hscan
    cases hscan
  have hnewest : Newest 50 t.remote.rows served := hfeed
  refine ⟨t, hbefore, hnewest, fun hfit r hr hserved hd => ?_⟩
  have hmem : r ∈ served := by
    rcases hserved with hserved | hshort
    · exact hserved
    · exact hnewest.all hshort hr
  exact (hentries _ _).2 (.inr ⟨_, by simp, takenBy_scan hfit hmem hd⟩)

/-! ### Envelopes that do not arrive -/

/-- A node with a link. -/
def linkedNode : FeedNode :=
  ⟨"+33611111111", Table.empty.insert (adaLink (hexEncode samplePublic)), Table.empty⟩

/-- The linked node before it publishes anything. -/
def emptyFeed : Pull := ⟨Table.empty, linkedNode⟩

/-- The signature of the broadcast a millisecond later. -/
def laterSignature : GoString :=
  (hexDecode ("7ad0e0e2737e46b75bf01d31ea35515f44c4c6ccd69e9e3742a51ba465a7d83d" ++
    str "d83228503acea0675d90fae87735d5b7ee9f6dbb37545a751f0c1629e8103e09")).getD []

/-- What can be verified with the key of the linked node. -/
def feedSigner : Ed25519 where
  sign _ message := if message = helloMessage then helloSignature else laterSignature
  verify pub message signature :=
    pub = samplePublic ∧
      ((message = helloMessage ∧ signature = helloSignature) ∨
        (message = envelopePayload "+33600000000" "*" 2 "hello" ∧ signature = laterSignature))

/-- The broadcast, as it is published. -/
def helloRow : Published := ⟨"+33600000000", "*", "hello", hexEncode helloSignature, 1, 0⟩

/-- The same text a millisecond later. -/
def laterRow : Published := ⟨"+33600000000", "*", "hello", hexEncode laterSignature, 2, 0⟩

/-- A message to somebody else. -/
def otherRow : Published := ⟨"+33600000000", "+33622222222", "hi", [], 0, 1⟩

/-- The text of a time. -/
def sampleFormat (_ : Nat) : GoString := "2026-01-01T00:00:00Z"

/-- A run of the two nodes. -/
def pullRun (as : List PullAction) : Option Pull :=
  runSteps (pullStep feedSigner sampleFormat "0600000000") emptyFeed as

set_option maxRecDepth 8000 in
theorem pulled_hello :
    ∃ s, pullRun [.publish helloRow, .scan [⟨1, helloRow⟩]] = some s ∧
      HasEntry s.node.inbox 1 "+33600000000" "hello" := by
  have hsome : (pullRun [.publish helloRow, .scan [⟨1, helloRow⟩]]).isSome = true := by
    decide
  obtain ⟨s, hrun⟩ := Option.isSome_iff_exists.1 hsome
  have hlink : Linked linkedNode "0600000000" ⟨1, adaLink (hexEncode samplePublic)⟩ :=
    ⟨by decide, by decide, by decide⟩
  obtain ⟨t, ht, hnewest, hall⟩ := (pulled hlink hrun).1 [.publish helloRow] [⟨1, helloRow⟩] [] rfl
  have hd : Deliverable feedSigner linkedNode.getSelfPhone (hexEncode samplePublic)
      (Published.envelope sampleFormat ⟨1, helloRow⟩) :=
    ⟨by decide, by decide, by decide, by decide, by decide⟩
  exact ⟨s, hrun, hall (by decide) ⟨1, helloRow⟩ (hnewest.subset _ (List.mem_cons_self ..))
    (.inl (List.mem_cons_self ..)) hd⟩

/-- An envelope behind fifty newer ones for somebody else, and a text that is published twice. -/
theorem not_pulled :
    verifyEnvelope feedSigner (hexEncode samplePublic)
        (Published.envelope sampleFormat ⟨1, helloRow⟩) = true ∧
      verifyEnvelope feedSigner (hexEncode samplePublic)
        (Published.envelope sampleFormat ⟨2, laterRow⟩) = true ∧
      (pullRun (.publish helloRow :: List.replicate 50 (.publish otherRow) ++
        [.scan ((List.range 50).map fun i => ⟨i + 2, otherRow⟩)])).map
          (fun s => s.node.inbox.rows.map Row.val) = some [] ∧
      (pullRun [.publish helloRow, .publish laterRow, .scan [⟨2, laterRow⟩, ⟨1, helloRow⟩]]).map
          (fun s => s.node.inbox.rows.map Row.val) =
        some [⟨1, "+33600000000", "hello", hexEncode laterSignature⟩] := by
  refine ⟨by decide +kernel, by decide +kernel, ?_, ?_⟩
  · decide +kernel
  · decide +kernel

end Gafam.Relay
