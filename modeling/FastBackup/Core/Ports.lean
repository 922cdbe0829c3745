import FastBackup.Core.Backup
import Mathlib.Logic.Function.Basic

namespace FastBackup
set_option autoImplicit true

/-- The calls of the `Storage` port; an upload comes with the bytes of the file it reads, and a
download replies with the bytes it writes. -/
inductive StorageCall where
  | upload (req : UploadRequest) (content : Bytes)
  | list (pageSize : Nat) (pageToken : Option String)
  | latest
  | get (id : String)
  | download (backup : BackupInfo)
  | delete (id : String)

abbrev StorageCall.Reply : StorageCall → Type
  | .upload _ _ | .get _ => Except Error BackupInfo
  | .list _ _ => Except Error (Page BackupInfo)
  | .latest => Except Error (Option BackupInfo)
  | .download _ => Except Error Bytes
  | .delete _ => Except Error Unit

def StorageCall.reads : StorageCall → Bool
  | .upload _ _ | .delete _ => false
  | _ => true

/-- `s'` holds what `s` holds and the new backup `info` of `req`. -/
structure Adds (lookup : St → String → Option (BackupInfo × Bytes)) (req : UploadRequest)
    (content : Bytes) (info : BackupInfo) (s s' : St) : Prop where
  fresh : lookup s info.id = none
  stored : lookup s' = Function.update (lookup s) info.id (some (info, content))
  kind : info.kind = req.kind
  format : info.format = req.format

/-- A storage: how its state answers calls (`exec`), and what the state stores under each id
(`lookup`). `names s i` says that `s` shows `i` to clients as one of its backups, and `proper id`
that backups can have this id; what a client asks for need not be one. Calls may fail at will; a
failed upload or delete may still have taken effect. `latest` reads page by page: `exec` has its
replies for pages of one state, and `latestAmong` those for pages that others come between. -/
structure StorageModel (St : Type) where
  exec : St → (c : StorageCall) → c.Reply → St → Prop
  lookup : St → String → Option (BackupInfo × Bytes)
  names : St → BackupInfo → Prop
  proper : String → Prop
  latestAmong : Except Error (Option BackupInfo) → Prop
  read_only : c.reads = true → exec s c r s' → s' = s
  upload_ok : exec s (.upload req content) (.ok info) s' → Adds lookup req content info s s'
  upload_error : exec s (.upload req content) (.error e) s' →
    s' = s ∨ ∃ info, Adds lookup req content info s s'
  delete_shrinks {id : String} : exec s (.delete id) r s' → lookup s' id' = some x →
    lookup s id' = some x
  delete_keeps {id : String} : exec s (.delete id) r s' → proper id → id' ≠ id →
    lookup s' id' = lookup s id'
  list_names : exec s (.list size token) (.ok page) s' → ∀ i ∈ page.items, names s i
  latest_names : exec s .latest (.ok (some i)) s' → names s i
  get_names {id : String} : exec s (.get id) (.ok i) s' → names s i ∧ (proper id → i.id = id)
  names_lookup : names s i → ∃ content, lookup s i.id = some (i, content)
  lookup_proper : lookup s id' = some x → proper id'
  download_content : names s i → exec s (.download i) (.ok content) s' →
    lookup s i.id = some (i, content)

/-- The ports of a service. `dumps d b`: a dump of database `d` can be the bytes `b`; `load b`:
what restoring `b` makes of the database, if it succeeds; `decode`: zstd. -/
structure Ports (St DB : Type) where
  storage : StorageModel St
  dumps : DB → Bytes → Prop
  load : Bytes → Option DB
  load_dump : dumps d b → load b = some d
  decode : Bytes → Option Bytes

/-- The same ports with another storage. -/
def Ports.over (P : Ports St DB) (S : StorageModel St') : Ports St' DB where
  storage := S
  dumps := P.dumps
  load := P.load
  load_dump := P.load_dump
  decode := P.decode

variable {S : StorageModel St} {lookup : St → String → Option (BackupInfo × Bytes)}

theorem Adds.lookup_new (h : Adds lookup req content info s s') :
    lookup s' info.id = some (info, content) := by
  rw [h.stored, Function.update_self]

/-- An upload keeps what is stored. -/
theorem Adds.lookup_old {id : String} (h : Adds lookup req content info s s')
    (hl : lookup s id = some x) : lookup s' id = some x := by
  have hn : id ≠ info.id := by
    intro he
    rw [he, h.fresh] at hl
    cases hl
  rw [h.stored, Function.update_of_ne hn, hl]

/-- Every upload keeps what is stored, also one that fails. -/
theorem upload_keeps {id : String} (he : S.exec s (.upload req content) r s')
    (hl : S.lookup s id = some x) : S.lookup s' id = some x := by
  cases r with
  | ok info => exact (S.upload_ok he).lookup_old hl
  | error e =>
    rcases S.upload_error he with hs | ⟨info, ha⟩
    · rw [hs]
      exact hl
    · exact ha.lookup_old hl

abbrev MapStore := String → Option (BackupInfo × Bytes)

/-- What a call does to a map from id to backup: an upload takes a fresh id, and content stays
unchanged until it is deleted. -/
def MapStore.exec (s : MapStore) : (c : StorageCall) → c.Reply → MapStore → Prop
  | .upload req content, .ok info, s' => Adds (fun s => s) req content info s s'
  | .upload req content, .error _, s' => s' = s ∨ ∃ info, Adds (fun s => s) req content info s s'
  | .list _ _, .ok page, s' => (∀ i ∈ page.items, ∃ b, s i.id = some (i, b)) ∧ s' = s
  | .latest, .ok (some i), s' => (∃ b, s i.id = some (i, b)) ∧ s' = s
  | .get id, .ok i, s' => (∃ b, s i.id = some (i, b)) ∧ i.id = id ∧ s' = s
  | .download backup, .ok content, s' => (∃ i, s backup.id = some (i, content)) ∧ s' = s
  | .delete id, .ok _, s' => s' = Function.update s id none
  | .delete id, .error _, s' => s' = s ∨ s' = Function.update s id none
  | _, _, s' => s' = s

def mapStorage : StorageModel MapStore where
  exec := MapStore.exec
  lookup s := s
  names s i := ∃ b, s i.id = some (i, b)
  read_only {s c r s'} hc he := by
    cases c with
    | upload | delete => cases hc
    | list | get | download | latest =>
      unfold MapStore.exec at he
      split at he <;> simp_all
  upload_ok he := he
  upload_error he := he
  proper _ := True
  latestAmong _ := True
  delete_shrinks {s r s' id' x id} he hl := by
    have heff : s' = s ∨ s' = Function.update s id none := by
      cases r with
      | ok u => exact .inr he
      | error e => exact he
    rcases heff with rfl | rfl
    · exact hl
    · by_cases hn : id' = id
      · rw [hn, Function.update_self] at hl
        cases hl
      · rwa [Function.update_of_ne hn] at hl
  delete_keeps {s r s' id' id} he _ hn := by
    cases r with
    | ok u => rw [show s' = Function.update s id none from he, Function.update_of_ne hn]
    | error e =>
      rcases he with rfl | rfl
      · rfl
      · rw [Function.update_of_ne hn]
  list_names he := he.1
  latest_names he := he.1
  get_names he := ⟨he.1, fun _ => he.2.1⟩
  names_lookup hn := hn
  lookup_proper _ := trivial
  download_content {s i content s'} hn he := by
    obtain ⟨b, hb⟩ := hn
    obtain ⟨⟨i', hi⟩, _⟩ := he
    rw [hb] at hi
    cases hi
    exact hb

/-- Databases that are dumped as they are, on a map. -/
def mapPorts : Ports MapStore Bytes where
  storage := mapStorage
  dumps d b := b = d
  load := some
  load_dump h := congrArg some h
  decode := some

end FastBackup
