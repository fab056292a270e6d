import Gafam.Go.Proofs.EncodingProofs
import Gafam.Go.Proofs.TextProofs
import Gafam.Relay.Credentials

/-!
# The first row of a site is the one that was stored last

`QueryRow` returns the first row of a site, so that of several rows the oldest one is found. As long as every
request stores for a site that no older row has, the rows of a site were stored in the opposite order, and
the first one is the last that was stored.
-/

namespace Gafam.Relay

open Gafam.Go Gafam.Lib

/-! ## Seals -/

section
variable {C : Cipher} {key : GoString}

/-- What is sealed under the key can be opened. -/
def Opens (C : Cipher) (key : GoString) : Prop :=
  ∀ iv plaintext : GoString, iv.length = nonceSize → C.decrypt key iv (C.encrypt key iv plaintext) = some plaintext

theorem colon_notMem_base64Encode (s : GoString) : (0x3A : UInt8) ∉ base64Encode s := by
  intro h
  exact base64Encode_forall (p := fun c => c ≠ 0x3A) (by decide) (by decide) s _ h rfl

theorem unseal_seal (hopens : Opens C key) (iv : Nonce) {plaintext : GoString} (hne : plaintext ≠ []) :
    sealCredentialSecret C key iv plaintext ≠ [] ∧
      unsealCredentialSecret C key (sealCredentialSecret C key iv plaintext) = plaintext := by
  have hseal : sealCredentialSecret C key iv plaintext =
      str "seal:" ++ (base64Encode iv.bytes ++ 0x3A :: base64Encode (C.encrypt key iv.bytes plaintext)) := by
    rw [sealCredentialSecret, if_neg hne, show str ":" = [0x3A] by decide]
    simp
  have hsome : sealCredentialSecret C key iv plaintext ≠ [] := by
    rw [hseal]
    exact List.append_ne_nil_of_left_ne_nil (by decide) _
  have hindex := index_colon (colon_notMem_base64Encode iv.bytes) (base64Encode (C.encrypt key iv.bytes plaintext))
  have hstarts : hasPrefix (sealCredentialSecret C key iv plaintext) "seal:" = true := by
    rw [hseal, hasPrefix, List.isPrefixOf_iff_prefix]
    exact List.prefix_append _ _
  have hrest : (sealCredentialSecret C key iv plaintext).drop 5 =
      base64Encode iv.bytes ++ 0x3A :: base64Encode (C.encrypt key iv.bytes plaintext) := by
    rw [hseal]
    exact List.drop_left' (by decide)
  refine ⟨hsome, ?_⟩
  have hguard : ¬ (sealCredentialSecret C key iv plaintext = [] ∨
      hasPrefix (sealCredentialSecret C key iv plaintext) "seal:" = false) := by
    rw [hstarts]
    simp [hsome]
  have htake : (base64Encode iv.bytes ++ 0x3A :: base64Encode (C.encrypt key iv.bytes plaintext)).take
      (base64Encode iv.bytes).length = base64Encode iv.bytes := List.take_left
  have hdrop : (base64Encode iv.bytes ++ 0x3A :: base64Encode (C.encrypt key iv.bytes plaintext)).drop
      ((base64Encode iv.bytes).length + 1) = base64Encode (C.encrypt key iv.bytes plaintext) := by
    rw [List.drop_append]
    simp
  rw [unsealCredentialSecret, if_neg hguard, hrest]
  simp only [hindex, htake, hdrop, decryptAESGCM, base64Decode_encode]
  simp [iv.length_eq, hopens iv.bytes plaintext iv.length_eq]

/-- A blob of the table and the secret that it stands for. -/
def Sealed (C : Cipher) (key blob secret : GoString) : Prop :=
  (secret = [] ∧ blob = []) ∨ (secret ≠ [] ∧ blob ≠ [] ∧ unsealCredentialSecret C key blob = secret)

theorem sealed_seal (hopens : Opens C key) (iv : Nonce) (plaintext : GoString) :
    Sealed C key (sealCredentialSecret C key iv plaintext) plaintext := by
  by_cases hne : plaintext = []
  · exact Or.inl ⟨hne, by rw [sealCredentialSecret, if_pos hne]⟩
  · obtain ⟨hblob, hunseal⟩ := unseal_seal hopens iv hne
    exact Or.inr ⟨hne, hblob, hunseal⟩

/-! ## Rows and entries -/

/-- The row holds the credential. -/
structure HoldsCredential (C : Cipher) (key : GoString) (r : Row CredentialRow) (e : Stored) : Prop where
  id : r.id = e.id
  site : r.val.site = e.site
  username : r.val.username = e.username
  password : Sealed C key r.val.passwordEnc e.password
  totpSecret : Sealed C key r.val.totpSecretEnc e.totpSecret
  notes : r.val.notes = e.notes
  createdAt : r.val.createdAt = e.createdAt
  updatedAt : r.val.updatedAt = e.updatedAt

/-- The table holds what was stored, and of two credentials of a site the one with the smaller id was stored
later. -/
structure Kept (C : Cipher) (key : GoString) (t : CredentialTable) (h : WriteHistory) : Prop where
  seq : t.seq = h.inserted
  entry : ∀ r ∈ t.rows, ∃ e ∈ h.entries, HoldsCredential C key r e
  row : ∀ e ∈ h.entries, ∃ r ∈ t.rows, HoldsCredential C key r e
  order : h.entries.Pairwise fun e e' : Stored => e.id ≠ e'.id ∧ (e.site = e'.site → e'.id < e.id)

theorem kept_empty : Kept C key Table.empty WriteHistory.empty :=
  ⟨rfl, fun _ hr => absurd hr List.not_mem_nil, fun _ he => absurd he List.not_mem_nil, List.Pairwise.nil⟩

/-- **One credential is stored**, for a site that no older one has. -/
theorem Kept.put {t t' : CredentialTable} {h : WriteHistory} (hkept : Kept C key t h) {r : Row CredentialRow}
    {e : Stored} {n : Nat} (hholds : HoldsCredential C key r e) (hseq : t'.seq = n)
    (hrows : ∀ r', r' ∈ t'.rows ↔ (r' ∈ t.rows ∧ r'.id ≠ e.id) ∨ r' = r)
    (hsite : ∀ r' ∈ t.rows, r'.id ≠ e.id → r'.val.site = e.site → e.id < r'.id) :
    Kept C key t' ⟨h.entries.filter (fun e' => e'.id != e.id) ++ [e], n⟩ := by
  have hfilter : ∀ {e' : Stored}, e' ∈ h.entries.filter (fun e' => e'.id != e.id) ↔
      e' ∈ h.entries ∧ e'.id ≠ e.id := by
    intro e'
    rw [List.mem_filter, bne_iff_ne]
  refine ⟨hseq, ?_, ?_, ?_⟩
  · intro r' hr'
    rcases (hrows r').1 hr' with ⟨hold, hne⟩ | rfl
    · obtain ⟨e', he', hholds'⟩ := hkept.entry r' hold
      exact ⟨e', List.mem_append_left _ (hfilter.2 ⟨he', hholds'.id ▸ hne⟩), hholds'⟩
    · exact ⟨e, List.mem_append_right _ List.mem_cons_self, hholds⟩
  · intro e' he'
    rcases List.mem_append.1 he' with hold | hnew
    · obtain ⟨hmem, hne⟩ := hfilter.1 hold
      obtain ⟨r', hr', hholds'⟩ := hkept.row e' hmem
      exact ⟨r', (hrows r').2 (Or.inl ⟨hr', hholds'.id ▸ hne⟩), hholds'⟩
    · obtain rfl := List.mem_singleton.1 hnew
      exact ⟨r, (hrows r).2 (Or.inr rfl), hholds⟩
  · refine List.pairwise_append.2 ⟨hkept.order.filter _, List.pairwise_singleton _ _, ?_⟩
    intro e₁ he₁ e₂ he₂
    obtain rfl := List.mem_singleton.1 he₂
    obtain ⟨hmem, hne⟩ := hfilter.1 he₁
    obtain ⟨r', hr', hholds'⟩ := hkept.row e₁ hmem
    refine ⟨hne, fun hsame => ?_⟩
    rw [← hholds'.id]
    exact hsite r' hr' (hholds'.id ▸ hne) (hholds'.site.trans hsame)

theorem Kept.delete {t : CredentialTable} {h : WriteHistory} (hkept : Kept C key t h) (p : Nat → Bool) :
    Kept C key (t.delete fun r => p r.id) { h with entries := h.entries.filter fun e => !p e.id } := by
  refine ⟨hkept.seq, ?_, ?_, hkept.order.filter _⟩
  · intro r hr
    obtain ⟨hmem, hp⟩ := List.mem_filter.1 hr
    obtain ⟨e, he, hholds⟩ := hkept.entry r hmem
    exact ⟨e, List.mem_filter.2 ⟨he, hholds.id ▸ hp⟩, hholds⟩
  · intro e he
    obtain ⟨hmem, hp⟩ := List.mem_filter.1 he
    obtain ⟨r, hr, hholds⟩ := hkept.row e hmem
    refine ⟨r, List.mem_filter.2 ⟨hr, ?_⟩, hholds⟩
    show (!p r.id) = true
    rw [hholds.id]
    exact hp

/-! ## Requests -/

theorem byId_eq {t : CredentialTable} {r : Row CredentialRow} (hr : r ∈ t.rows) {id : Int}
    (hid : (r.id : Int) = id) : t.byId id = some r := by
  unfold CredentialTable.byId
  have hsome : (t.rows.find? fun r => (r.id : Int) == id).isSome = true :=
    List.find?_isSome.2 ⟨r, hr, beq_iff_eq.2 hid⟩
  obtain ⟨r', hr'⟩ := Option.isSome_iff_exists.1 hsome
  have hid' : (r'.id : Int) = id := beq_iff_eq.1 (List.find?_some (p := fun r : Row CredentialRow => (r.id : Int) == id) hr')
  rw [hr']
  exact congrArg some (Table.row_unique (List.mem_of_find?_eq_some hr') hr (by omega))

/-- The secret of an update: the old one if there is none. -/
theorem sealed_update (hopens : Opens C key) (iv : Nonce) (secret : GoString) {blob old : GoString}
    (hold : Sealed C key blob old) :
    Sealed C key (if secret = [] then blob else sealCredentialSecret C key iv secret)
      (if secret = [] then old else secret) := by
  split_ifs
  · exact hold
  · exact sealed_seal hopens iv secret

theorem Kept.update (hopens : Opens C key) {t : CredentialTable} {h : WriteHistory} (hkept : Kept C key t h)
    (now : Nat) (iv iv' : Nonce) {c : CredentialInput} {r : Row CredentialRow} (hr : r ∈ t.rows)
    (hid : (r.id : Int) = c.id)
    (hsite : ∀ r' ∈ t.rows, (r'.id : Int) < c.id → r'.val.site ≠ normalizeSite c.site) :
    Kept C key (updateCredential C key t now iv iv' c) (h.put (h.updated now c)) := by
  have hnat : c.id.toNat = r.id := by omega
  obtain ⟨e, he, hholds⟩ := hkept.entry r hr
  have hunique : ∀ e₁ ∈ h.entries, ∀ e₂ ∈ h.entries, e₁.id = e₂.id → e₁ = e₂ :=
    fun e₁ he₁ e₂ he₂ hsame => List.inj_on_of_nodup_map
      (List.pairwise_map.2 (hkept.order.imp fun hab => hab.1)) he₁ he₂ hsame
  have hfind : (h.entries.find? fun e' => e'.id == c.id.toNat) = some e := by
    have hsome : (h.entries.find? fun e' => e'.id == c.id.toNat).isSome = true :=
      List.find?_isSome.2 ⟨e, he, beq_iff_eq.2 (by rw [hnat, hholds.id])⟩
    obtain ⟨e', he'⟩ := Option.isSome_iff_exists.1 hsome
    have hid' : e'.id = c.id.toNat :=
      beq_iff_eq.1 (List.find?_some (p := fun e' : Stored => e'.id == c.id.toNat) he')
    rw [he', hunique e' (List.mem_of_find?_eq_some he') e he (by rw [hid', hnat, hholds.id])]
  have hupdated : h.updated now c =
      { id := r.id, site := normalizeSite c.site, username := c.username,
        password := if c.password = [] then e.password else c.password,
        totpSecret := if c.totpSecret = [] then e.totpSecret else c.totpSecret,
        notes := c.notes, createdAt := e.createdAt, updatedAt := now } := by
    rw [WriteHistory.updated, hfind, hnat]
    rfl
  have hpass := sealed_update hopens iv c.password hholds.password
  have htotp := sealed_update hopens iv' c.totpSecret hholds.totpSecret
  rw [WriteHistory.put, hupdated]
  refine hkept.put (r := ⟨r.id,
    { site := normalizeSite c.site, username := c.username,
      passwordEnc := if c.password = [] then r.val.passwordEnc else sealCredentialSecret C key iv c.password,
      totpSecretEnc :=
        if c.totpSecret = [] then r.val.totpSecretEnc else sealCredentialSecret C key iv' c.totpSecret,
      notes := c.notes, createdAt := r.val.createdAt, updatedAt := now }⟩)
    ⟨rfl, rfl, rfl, hpass, htotp, rfl, hholds.createdAt, rfl⟩ hkept.seq ?_ ?_
  · intro r'
    rw [updateCredential, byId_eq hr hid, hnat, Table.mem_update]
    refine or_congr Iff.rfl ?_
    constructor
    · rintro ⟨v, hv, rfl⟩
      rw [← Table.row_unique hv hr rfl]
      rfl
    · rintro rfl
      exact ⟨r.val, hr, rfl⟩
  · intro r' hr' hne hsame
    rcases Nat.lt_trichotomy r.id r'.id with hlt | heq | hgt
    · exact hlt
    · exact absurd heq.symm hne
    · exact absurd hsame (hsite r' hr' (by omega))

theorem Kept.insert (hopens : Opens C key) {t : CredentialTable} {h : WriteHistory} (hkept : Kept C key t h)
    (now : Nat) (iv iv' : Nonce) {c : CredentialInput}
    (hsite : ∀ r' ∈ t.rows, r'.val.site ≠ normalizeSite c.site) :
    Kept C key (insertCredential C key t now iv iv' c)
      ⟨h.entries ++ [⟨h.inserted + 1, normalizeSite c.site, c.username, c.password, c.totpSecret, c.notes, now,
        now⟩], h.inserted + 1⟩ := by
  have hnext : t.nextId = h.inserted + 1 := by rw [Table.nextId, hkept.seq]
  have hfilter : h.entries.filter (fun e => e.id != h.inserted + 1) = h.entries := by
    refine List.filter_eq_self.2 fun e he => ?_
    obtain ⟨r, hr, hholds⟩ := hkept.row e he
    have hle := t.le_seq r hr
    rw [hkept.seq, hholds.id] at hle
    exact bne_iff_ne.2 (by omega)
  have hput : Kept C key (insertCredential C key t now iv iv' c)
      ⟨h.entries.filter (fun e => e.id != h.inserted + 1) ++ [⟨h.inserted + 1, normalizeSite c.site, c.username,
        c.password, c.totpSecret, c.notes, now, now⟩], h.inserted + 1⟩ := by
    refine hkept.put (r := ⟨t.nextId,
      { site := normalizeSite c.site, username := c.username,
        passwordEnc := sealCredentialSecret C key iv c.password,
        totpSecretEnc := sealCredentialSecret C key iv' c.totpSecret, notes := c.notes, createdAt := now,
        updatedAt := now }⟩)
      (e := ⟨h.inserted + 1, normalizeSite c.site, c.username, c.password, c.totpSecret, c.notes, now, now⟩)
      ⟨hnext, rfl, rfl, sealed_seal hopens iv _, sealed_seal hopens iv' _, rfl, rfl, rfl⟩ ?_ ?_ ?_
    · exact hnext
    · intro r'
      rw [insertCredential, Table.mem_insert]
      refine or_congr ⟨fun hr' => ⟨hr', ?_⟩, fun hr' => hr'.1⟩ Iff.rfl
      have hle := t.le_seq r' hr'
      rw [hkept.seq] at hle
      show r'.id ≠ h.inserted + 1
      omega
    · intro r' hr' _ hsame
      exact absurd hsame (hsite r' hr')
  rwa [hfilter] at hput

theorem kept_serve (hopens : Opens C key) {number : GoString → Option Int} {t : CredentialTable}
    {h : WriteHistory} {req : VaultRequest} (hkept : Kept C key t h) (hmeets : KeepsSites t req) :
    Kept C key (serveVault C key number t req) (acknowledge number h req) := by
  cases req with
  | post now iv iv' input =>
    cases input with
    | none => exact hkept
    | some c =>
      simp only [serveVault, acknowledge]
      by_cases hempty : c.site = []
      · rw [if_pos hempty, if_pos hempty]
        exact hkept
      · have hcond := hmeets hempty
        rw [if_neg hempty, if_neg hempty]
        by_cases hpos : 0 < c.id
        · rw [if_pos hpos] at hcond
          obtain ⟨⟨r, hr, hid⟩, hsite⟩ := hcond
          rw [if_pos hpos, if_pos hpos]
          exact hkept.update hopens now iv iv' hr hid hsite
        · rw [if_neg hpos] at hcond
          rw [if_neg hpos, if_neg hpos]
          exact hkept.insert hopens now iv iv' hcond
  | delete id =>
    simp only [serveVault, acknowledge]
    by_cases hempty : id = []
    · rw [if_pos hempty, if_pos hempty]
      exact hkept
    · rw [if_neg hempty, if_neg hempty]
      exact hkept.delete fun n => number id == some (n : Int)

/-! ## Lookups -/

/-- In a list in which the items of a site stand by their ids, the first one has the smallest. -/
theorem id_le_of_find? {α : Type} {l : List α} {id : α → Nat} {site : α → GoString}
    (horder : l.Pairwise fun a b => site a = site b → id a < id b) {S : GoString} {x : α}
    (hx : (l.find? fun a => site a == S) = some x) {y : α} (hy : y ∈ l) (hsite : site y = S) : id x ≤ id y := by
  have hxsite : site x = S := beq_iff_eq.1 (List.find?_some (p := fun a => site a == S) hx)
  obtain ⟨-, before, after, rfl, hbefore⟩ := List.find?_eq_some_iff_append.1 hx
  rcases List.mem_append.1 hy with hy | hy
  · have hno := hbefore y hy
    simp [hsite] at hno
  · rcases List.mem_cons.1 hy with rfl | hy
    · exact le_rfl
    · have hcons := List.pairwise_cons.1 (List.pairwise_append.1 horder).2.1
      exact (hcons.1 y hy (hxsite.trans hsite.symm)).le

/-- **The first row of a site is the credential that was stored last for it.** -/
theorem Kept.bySite {t : CredentialTable} {h : WriteHistory} (hkept : Kept C key t h) (site : GoString) :
    (t.bySite (normalizeSite site) = none ∧ h.latest site = none) ∨
      ∃ r e, t.bySite (normalizeSite site) = some r ∧ h.latest site = some e ∧ HoldsCredential C key r e := by
  unfold CredentialTable.bySite WriteHistory.latest
  have hrows : t.rows.Pairwise fun r r' : Row CredentialRow => r.val.site = r'.val.site → r.id < r'.id :=
    t.sorted.imp (by intro a b hab _; exact hab)
  have hentries : h.entries.reverse.Pairwise fun e e' : Stored => e.site = e'.site → e.id < e'.id :=
    List.pairwise_reverse.2 (hkept.order.imp fun hab hsame => hab.2 hsame.symm)
  cases hr : t.rows.find? fun r => r.val.site == normalizeSite site with
  | none =>
    left
    refine ⟨rfl, List.find?_eq_none.2 fun e he => ?_⟩
    obtain ⟨r, hmem, hholds⟩ := hkept.row e (List.mem_reverse.1 he)
    have hno := List.find?_eq_none.1 hr r hmem
    rwa [hholds.site] at hno
  | some r =>
    right
    have hmem := List.mem_of_find?_eq_some hr
    have hsite : r.val.site = normalizeSite site :=
      beq_iff_eq.1 (List.find?_some (p := fun r : Row CredentialRow => r.val.site == normalizeSite site) hr)
    obtain ⟨e', he', hholds'⟩ := hkept.entry r hmem
    have hsome : (h.entries.reverse.find? fun e => e.site == normalizeSite site).isSome = true :=
      List.find?_isSome.2 ⟨e', List.mem_reverse.2 he', beq_iff_eq.2 (hholds'.site ▸ hsite)⟩
    obtain ⟨e, he⟩ := Option.isSome_iff_exists.1 hsome
    have hesite : e.site = normalizeSite site :=
      beq_iff_eq.1 (List.find?_some (p := fun e : Stored => e.site == normalizeSite site) he)
    obtain ⟨r', hr', hholds⟩ := hkept.row e (List.mem_reverse.1 (List.mem_of_find?_eq_some he))
    have hle := id_le_of_find? hrows hr hr' (hholds.site.trans hesite)
    have hle' := id_le_of_find? hentries he (List.mem_reverse.2 he') (hholds'.site ▸ hsite)
    have hid : r'.id = r.id := by
      have hleft := hholds.id
      have hright := hholds'.id
      omega
    obtain rfl := Table.row_unique hr' hmem hid
    exact ⟨r', e, rfl, he, hholds⟩

/-- What the endpoint finds is what was stored last. -/
theorem Kept.found {t : CredentialTable} {h : WriteHistory} (hkept : Kept C key t h) {asked site : GoString}
    (hfinds : FindsSite t asked site) :
    (t.bySite asked = none ∧ h.latest site = none) ∨
      ∃ r e, t.bySite asked = some r ∧ h.latest site = some e ∧ HoldsCredential C key r e := by
  rcases hfinds with rfl | ⟨hasked, hnormal⟩
  · exact hkept.bySite site
  · rcases hkept.bySite site with ⟨-, hlatest⟩ | ⟨r, e, hr, -, -⟩
    · exact Or.inl ⟨hasked, hlatest⟩
    · rw [hnormal] at hr
      exact absurd hr.symm (Option.some_ne_none _)

/-- A blob that is there is opened. -/
theorem Sealed.unseal {blob secret : GoString} (hsealed : Sealed C key blob secret) (hblob : blob ≠ []) :
    unsealCredentialSecret C key blob = secret ∧ secret ≠ [] := by
  rcases hsealed with ⟨-, hnone⟩ | ⟨hne, -, hunseal⟩
  · exact absurd hnone hblob
  · exact ⟨hunseal, hne⟩

theorem lookUp_of_kept {t : CredentialTable} {h : WriteHistory} (hkept : Kept C key t h)
    {totpCode : GoString → GoString} {lookup : VaultLookup} (hasked : AskedWell t lookup) :
    lookUpSite C key totpCode t lookup = dueReply totpCode h lookup := by
  cases lookup with
  | get site =>
    obtain ⟨hne, hfinds⟩ := hasked
    rcases hkept.found hfinds with ⟨hr, he⟩ | ⟨r, e, hr, he, hholds⟩
    · simp only [lookUpSite, dueReply, if_neg hne, hr, he]
    · simp only [lookUpSite, dueReply, if_neg hne, hr, he, hholds.id, hholds.site, hholds.username,
        hholds.notes, hholds.createdAt, hholds.updatedAt]
  | otp site =>
    obtain ⟨hne, hfinds, hstored⟩ := hasked
    rcases hkept.found hfinds with ⟨hr, he⟩ | ⟨r, e, hr, he, hholds⟩
    · simp only [lookUpSite, dueReply, if_neg hne, hr, he]
    · have hblob := hstored r hr
      obtain ⟨hunseal, hsecret⟩ := hholds.totpSecret.unseal hblob
      simp only [lookUpSite, dueReply, if_neg hne, hr, he, if_neg hblob, hunseal, if_neg hsecret]
  | password site =>
    obtain ⟨hne, hfinds, hstored⟩ := hasked
    rcases hkept.found hfinds with ⟨hr, he⟩ | ⟨r, e, hr, he, hholds⟩
    · simp only [lookUpSite, dueReply, if_neg hne, hr, he]
    · have hblob := hstored r hr
      obtain ⟨hunseal, hsecret⟩ := hholds.password.unseal hblob
      simp only [lookUpSite, dueReply, if_neg hne, hr, he, if_neg hblob, hunseal, if_neg hsecret]

end

/-! ## Sequences of requests -/

/-- The vault together with what was acknowledged. -/
def vaultStep (C : Cipher) (key : GoString) (number : GoString → Option Int) :=
  withHistory (fun t req => some (serveVault C key number t req)) fun _ req h => acknowledge number h req

/-- **After requests that store for sites that no older credential is stored for, and update credentials that
are stored, a lookup that writes the site as the endpoint looks for it, and asks for a secret that is stored,
gets the values that were stored last, and is not found exactly when there are none.** -/
theorem lookUp_of_meets {C : Cipher} {key : GoString} (hopens : Opens C key)
    {number : GoString → Option Int} {totpCode : GoString → GoString} {reqs : List VaultRequest}
    {t : CredentialTable} {h : WriteHistory}
    (hrun : runSteps (vaultStep C key number) (Table.empty, WriteHistory.empty) reqs = some (t, h))
    (hmeets : StepsMeet (fun t req => some (serveVault C key number t req)) KeepsSites Table.empty reqs)
    {lookup : VaultLookup} (hasked : AskedWell t lookup) :
    lookUpSite C key totpCode t lookup = dueReply totpCode h lookup := by
  refine lookUp_of_kept ?_ hasked
  refine runSteps_invariant_of_meet (P := fun p : CredentialTable × WriteHistory => Kept C key p.1 p.2)
    (C := fun (p : CredentialTable × WriteHistory) req => KeepsSites p.1 req) ?_ hrun
    (stepsMeet_withHistory.2 hmeets) kept_empty
  rintro ⟨t, h⟩ req ⟨t', h'⟩ hkept hcond hstep
  obtain ⟨hserve, rfl⟩ := withHistory_eq_some.1 hstep
  obtain rfl := Option.some.inj hserve
  exact kept_serve hopens hkept hcond

/-- A cipher for vaults in which nothing is sealed. -/
def noCipher : Cipher := ⟨fun s => s, fun _ _ text => text, fun _ _ box => some box⟩

def zeroNonce : Nonce := ⟨List.replicate 12 0, rfl⟩

/-- A credential for a site, without secrets. -/
def storeSite (site : GoString) : VaultRequest :=
  .post 7 zeroNonce zeroNonce (some ⟨0, site, "ada", [], [], []⟩)

theorem lookUp_of_meets_stored :
    ∃ t h, runSteps (vaultStep noCipher [] fun _ => none) (Table.empty, WriteHistory.empty)
        [storeSite " Example.com"] = some (t, h) ∧
      lookUpSite noCipher [] id t (.get "example.com") = dueReply id h (.get "example.com") := by
  obtain ⟨t, h, hrun⟩ : ∃ t h, runSteps (vaultStep noCipher [] fun _ => none)
      (Table.empty, WriteHistory.empty) [storeSite " Example.com"] = some (t, h) := ⟨_, _, rfl⟩
  refine ⟨t, h, hrun, lookUp_of_meets (fun _ _ _ => rfl) hrun ?_ ⟨by decide, Or.inl (by decide)⟩⟩
  refine stepsMeet_cons ?_ rfl trivial
  intro _ r hr
  exact absurd hr List.not_mem_nil

/-- The site is stored in lower case, and `GET` looks for it as it is written. -/
theorem upperCase_notFound :
    ∃ t h, runSteps (vaultStep noCipher [] fun _ => none) (Table.empty, WriteHistory.empty)
        [storeSite "Example.com"] = some (t, h) ∧
      lookUpSite noCipher [] id t (.get "Example.com") ≠ dueReply id h (.get "Example.com") := by
  refine ⟨_, _, rfl, ?_⟩
  have hlookup : ∀ t : CredentialTable, t.bySite "Example.com" = none →
      lookUpSite noCipher [] id t (.get "Example.com") = .error 404 "not found" := by
    intro t ht
    have hne : str "Example.com" ≠ [] := by decide
    simp only [lookUpSite, if_neg hne, ht]
  rw [hlookup _ (by rfl)]
  exact VaultReply.noConfusion

end Gafam.Relay
