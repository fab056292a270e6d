import Gafam.Lib.Steps
import Gafam.Lib.Table
import Gafam.Relay.Transport
import Mathlib.Data.List.Sort

/-!
# The credential vault

A credential is stored for a site, its password and its TOTP secret sealed. Requests to store and to delete
come one after the other; in between, a site can be looked up on three endpoints.

Given are the cipher, the key that is derived from the secret of the relay, the code that a TOTP secret has at
the time of a request, and what SQLite makes of a text that it compares with an id.
-/

namespace Gafam.Relay

open Gafam.Go Gafam.Lib

/-- A row of `gafam_credentials`; times are in seconds. -/
structure CredentialRow where
  site : GoString
  username : GoString
  passwordEnc : GoString
  totpSecretEnc : GoString
  notes : GoString
  createdAt : Nat
  updatedAt : Nat

abbrev CredentialTable := Table CredentialRow

/-- The body of a `POST`. -/
structure CredentialInput where
  id : Int
  site : GoString
  username : GoString
  password : GoString
  totpSecret : GoString
  notes : GoString

/-- The random bytes of a seal. -/
structure Nonce where
  bytes : GoString
  length_eq : bytes.length = nonceSize

/-! ## Seals -/

section
variable (C : Cipher) (key : GoString)

/-- `sealCredentialSecret`. With a key of the right length there is no error. -/
def sealCredentialSecret (iv : Nonce) (plaintext : GoString) : GoString :=
  if plaintext = [] then []
  else str "seal:" ++ base64Encode iv.bytes ++ str ":" ++ base64Encode (C.encrypt key iv.bytes plaintext)

/-- `unsealCredentialSecret`. -/
def unsealCredentialSecret (blob : GoString) : GoString :=
  if blob = [] ∨ hasPrefix blob "seal:" = false then []
  else
    let rest := blob.drop 5
    match index ":" rest with
    | none => []
    | some idx => (decryptAESGCM C key (rest.drop (idx + 1)) (rest.take idx)).getD []

/-! ## Requests that change the vault -/

/-- `strings.ToLower(strings.TrimSpace(site))`. -/
def normalizeSite (site : GoString) : GoString := toLower (trimSpace site)

/-- A request: a `POST` with its decoded body, if it can be decoded, at a time and with the random bytes of
its two seals; and a `DELETE` with its `id`. -/
inductive VaultRequest
  | post (now : Nat) (iv iv' : Nonce) (input : Option CredentialInput)
  | delete (id : GoString)

/-- The row with an id. -/
def CredentialTable.byId (t : CredentialTable) (id : Int) : Option (Row CredentialRow) :=
  t.rows.find? fun r => (r.id : Int) == id

/-- A `POST` that updates a row: empty secrets stay as they are. -/
def updateCredential (t : CredentialTable) (now : Nat) (iv iv' : Nonce) (c : CredentialInput) :
    CredentialTable :=
  let oldPass := ((t.byId c.id).map fun r => r.val.passwordEnc).getD []
  let oldTotp := ((t.byId c.id).map fun r => r.val.totpSecretEnc).getD []
  t.update c.id.toNat fun old =>
    { site := normalizeSite c.site
      username := c.username
      passwordEnc := if c.password = [] then oldPass else sealCredentialSecret C key iv c.password
      totpSecretEnc := if c.totpSecret = [] then oldTotp else sealCredentialSecret C key iv' c.totpSecret
      notes := c.notes
      createdAt := old.createdAt
      updatedAt := now }

/-- A `POST` that inserts a row. -/
def insertCredential (t : CredentialTable) (now : Nat) (iv iv' : Nonce) (c : CredentialInput) :
    CredentialTable :=
  t.insert
    { site := normalizeSite c.site
      username := c.username
      passwordEnc := sealCredentialSecret C key iv c.password
      totpSecretEnc := sealCredentialSecret C key iv' c.totpSecret
      notes := c.notes
      createdAt := now
      updatedAt := now }

variable (number : GoString → Option Int)

/-- `credentialsHandler` for `POST` and `DELETE`. -/
def serveVault (t : CredentialTable) : VaultRequest → CredentialTable
  | .post now iv iv' (some c) =>
    if c.site = [] then t
    else if 0 < c.id then updateCredential C key t now iv iv' c
    else insertCredential C key t now iv iv' c
  | .post _ _ _ none => t
  | .delete id => if id = [] then t else t.delete fun r => number id == some (r.id : Int)

end

/-! ## Looking a site up -/

inductive VaultReply
  | error (status : Nat) (message : GoString)
  | credential (id : Nat) (site username notes : GoString) (createdAt updatedAt : Nat)
  | credentials (l : List (Row CredentialRow))
  | code (site code : GoString)
  | password (site password : GoString)

inductive VaultLookup
  | get (site : GoString)
  | otp (site : GoString)
  | password (site : GoString)

/-- The first row of a site, which is what `QueryRow` returns. -/
def CredentialTable.bySite (t : CredentialTable) (site : GoString) : Option (Row CredentialRow) :=
  t.rows.find? fun r => r.val.site == site

/-- The end of `credentialsOTPHandler`. -/
def codeReply (totpCode : GoString → GoString) (site secret : GoString) : VaultReply :=
  if totpCode secret = [] then .error 500 "TOTP generation failed" else .code site (totpCode secret)

section
variable (C : Cipher) (key : GoString) (totpCode : GoString → GoString)

/-- `credentialsHandler` for `GET`, `credentialsOTPHandler` and `credentialsPasswordHandler`. -/
def lookUpSite (t : CredentialTable) : VaultLookup → VaultReply
  | .get site =>
    if site = [] then .credentials (t.rows.insertionSort fun r r' => r.val.site ≤ r'.val.site)
    else
      match t.bySite site with
      | none => .error 404 "not found"
      | some r => .credential r.id r.val.site r.val.username r.val.notes r.val.createdAt r.val.updatedAt
  | .otp site =>
    if site = [] then .error 400 "missing site"
    else
      match t.bySite (toLower site) with
      | none => .error 404 "no TOTP secret for this site"
      | some r =>
        if r.val.totpSecretEnc = [] then .error 404 "no TOTP secret for this site"
        else if unsealCredentialSecret C key r.val.totpSecretEnc = [] then
          .error 500 "failed to decrypt TOTP secret"
        else codeReply totpCode (toLower site) (unsealCredentialSecret C key r.val.totpSecretEnc)
  | .password site =>
    if site = [] then .error 400 "missing site"
    else
      match t.bySite (toLower site) with
      | none => .error 404 "no password for this site"
      | some r =>
        if r.val.passwordEnc = [] then .error 404 "no password for this site"
        else if unsealCredentialSecret C key r.val.passwordEnc = [] then
          .error 500 "failed to decrypt password"
        else .password (toLower site) (unsealCredentialSecret C key r.val.passwordEnc)

end

/-! ## What the vault is for -/

/-- A credential as it was stored last. -/
structure Stored where
  id : Nat
  site : GoString
  username : GoString
  password : GoString
  totpSecret : GoString
  notes : GoString
  createdAt : Nat
  updatedAt : Nat

/-- What the acknowledged requests have stored, the credential that was stored last at the end, and how many
credentials were new. -/
structure WriteHistory where
  entries : List Stored
  inserted : Nat

def WriteHistory.empty : WriteHistory := ⟨[], 0⟩

/-- The credential is stored, in the place of one with its id. -/
def WriteHistory.put (h : WriteHistory) (e : Stored) : WriteHistory :=
  { h with entries := h.entries.filter (fun e' => e'.id != e.id) ++ [e] }

/-- The credential that an update stores: empty secrets are those that the credential had. -/
def WriteHistory.updated (h : WriteHistory) (now : Nat) (c : CredentialInput) : Stored :=
  let old := (h.entries.find? fun e => e.id == c.id.toNat).getD ⟨c.id.toNat, [], [], [], [], [], now, now⟩
  { id := c.id.toNat
    site := normalizeSite c.site
    username := c.username
    password := if c.password = [] then old.password else c.password
    totpSecret := if c.totpSecret = [] then old.totpSecret else c.totpSecret
    notes := c.notes
    createdAt := old.createdAt
    updatedAt := now }

/-- A request, as it is acknowledged. -/
def acknowledge (number : GoString → Option Int) (h : WriteHistory) : VaultRequest → WriteHistory
  | .post now _ _ (some c) =>
    if c.site = [] then h
    else if 0 < c.id then h.put (h.updated now c)
    else
      { entries := h.entries ++
          [⟨h.inserted + 1, normalizeSite c.site, c.username, c.password, c.totpSecret, c.notes, now, now⟩]
        inserted := h.inserted + 1 }
  | .post _ _ _ none => h
  | .delete id =>
    if id = [] then h
    else { h with entries := h.entries.filter fun e => !(number id == some (e.id : Int)) }

/-- The most recently stored credential of a site. -/
def WriteHistory.latest (h : WriteHistory) (site : GoString) : Option Stored :=
  h.entries.reverse.find? fun e => e.site == normalizeSite site

/-- The reply that the history calls for: the values that were stored last, and not found if there are
none. -/
def dueReply (totpCode : GoString → GoString) (h : WriteHistory) : VaultLookup → VaultReply
  | .get site =>
    match h.latest site with
    | none => .error 404 "not found"
    | some e => .credential e.id e.site e.username e.notes e.createdAt e.updatedAt
  | .otp site =>
    match h.latest site with
    | none => .error 404 "no TOTP secret for this site"
    | some e => codeReply totpCode (toLower site) e.totpSecret
  | .password site =>
    match h.latest site with
    | none => .error 404 "no password for this site"
    | some e => .password (toLower site) e.password

/-! ## When it does it -/

/-- A new credential is for a site that no credential is stored for; and an update is of a credential that is
stored, for a site that no older credential is stored for. -/
def KeepsSites (t : CredentialTable) : VaultRequest → Prop
  | .post _ _ _ (some c) => c.site ≠ [] →
    if 0 < c.id then
      (∃ r ∈ t.rows, (r.id : Int) = c.id) ∧
        ∀ r ∈ t.rows, (r.id : Int) < c.id → r.val.site ≠ normalizeSite c.site
    else ∀ r ∈ t.rows, r.val.site ≠ normalizeSite c.site
  | _ => True

/-- The site is written in the way in which the endpoint looks for it, or no credential is stored for it
either way. -/
def FindsSite (t : CredentialTable) (asked : GoString) (site : GoString) : Prop :=
  asked = normalizeSite site ∨ (t.bySite asked = none ∧ t.bySite (normalizeSite site) = none)

/-- The endpoint finds the site, and the secret that it is asked for is stored. -/
def AskedWell (t : CredentialTable) : VaultLookup → Prop
  | .get site => site ≠ [] ∧ FindsSite t site site
  | .otp site => site ≠ [] ∧ FindsSite t (toLower site) site ∧
    ∀ r, t.bySite (toLower site) = some r → r.val.totpSecretEnc ≠ []
  | .password site => site ≠ [] ∧ FindsSite t (toLower site) site ∧
    ∀ r, t.bySite (toLower site) = some r → r.val.passwordEnc ≠ []

end Gafam.Relay
