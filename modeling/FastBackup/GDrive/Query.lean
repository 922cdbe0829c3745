import FastBackup.Core.Backup

namespace FastBackup
set_option autoImplicit true

def fileFields : String := "id,name,createdTime,size,md5Checksum,appProperties,parents,trashed"
def newestFirstOrder : String := "createdTime desc"

def propFormat : String := "format"
def propKind : String := "kind"
def propDbName : String := "db_name"

def listFields : String := "nextPageToken,files(" ++ fileFields ++ ")"

/-- `str::replace` of one character by a text. -/
def replaceChar (c : Char) (text value : String) : String :=
  String.ofList (value.toList.flatMap fun d => if d = c then text.toList else [d])

/-- Escape a value for a single-quoted Drive query literal. -/
def escape (value : String) : String := replaceChar '\'' "\\'" (replaceChar '\\' "\\\\" value)

def folderMime : String := "application/vnd.google-apps.folder"

def folderQuery (folderId : String) : String :=
  "'" ++ escape folderId ++ "' in parents and trashed = false and mimeType != '" ++ folderMime ++
    "'"

def latestQuery (folderId : String) : String :=
  folderQuery folderId ++ " and not appProperties has \x7b key='" ++ propKind ++ "' and value='" ++
    BackupKind.preRestore.asStr ++ "' \x7d"

/-! How Drive reads a query: a literal ends at the first quote that no backslash escapes, and a
backslash escapes the next character. -/

inductive Token where
  | word (text : String)
  | lit (text : String)
  | sym (c : Char)
  deriving DecidableEq

/-- Where the reader is, with what it has read of a word or literal. -/
inductive Mode where
  | between
  | word (read : List Char)
  | lit (read : List Char)
  | escaped (read : List Char)

def enter (c : Char) : List Token × Mode :=
  if c = ' ' then ([], .between)
  else if c = '\'' then ([], .lit [])
  else if c.isAlpha then ([], .word [c])
  else ([.sym c], .between)

/-- The tokens that end at character `c`, and where the reader is after it. -/
def Mode.next : Mode → Char → List Token × Mode
  | .between, c => enter c
  | .word read, c =>
    if c.isAlpha then ([], .word (read ++ [c]))
    else (.word (.ofList read) :: (enter c).1, (enter c).2)
  | .lit read, c =>
    if c = '\\' then ([], .escaped read)
    else if c = '\'' then ([.lit (.ofList read)], .between)
    else ([], .lit (read ++ [c]))
  | .escaped read, c => ([], .lit (read ++ [c]))

def Mode.finish : Mode → Option (List Token)
  | .between => some []
  | .word read => some [.word (.ofList read)]
  | .lit _ | .escaped _ => none

def tokens : Mode → List Char → Option (List Token)
  | m, [] => m.finish
  | m, c :: cs => (tokens (m.next c).2 cs).map ((m.next c).1 ++ ·)

/-- The first literal of a query, unescaped, and what follows it. -/
def firstLiteral : Mode → List Char → Option (String × String)
  | _, [] => none
  | m, c :: cs => match (m.next c).1 with
    | [.lit text] => some (text, .ofList cs)
    | _ => firstLiteral (m.next c).2 cs

inductive Term where
  | inParents (id : String)
  | trashed (value : Bool)
  | mimeTypeNot (mime : String)
  | lacksProperty (key value : String)
  deriving DecidableEq

def Term.read : List Token → Option (Term × List Token)
  | .lit id :: .word "in" :: .word "parents" :: rest => some (.inParents id, rest)
  | .word "trashed" :: .sym '=' :: .word "false" :: rest => some (.trashed false, rest)
  | .word "trashed" :: .sym '=' :: .word "true" :: rest => some (.trashed true, rest)
  | .word "mimeType" :: .sym '!' :: .sym '=' :: .lit mime :: rest => some (.mimeTypeNot mime, rest)
  | .word "not" :: .word "appProperties" :: .word "has" :: .sym '{' :: .word "key" :: .sym '=' ::
      .lit key :: .word "and" :: .word "value" :: .sym '=' :: .lit value :: .sym '}' :: rest =>
    some (.lacksProperty key value, rest)
  | _ => none

def readTerms : Nat → List Token → Option (List Term)
  | 0, _ => none
  | n + 1, ts =>
    match Term.read ts with
    | some (t, []) => some [t]
    | some (t, .word "and" :: rest) => (readTerms n rest).map (t :: ·)
    | _ => none

/-- The terms of a query, all of which a file has to meet. -/
def readQuery (query : String) : Option (List Term) :=
  (tokens .between query.toList).bind fun ts => readTerms ts.length ts

def escapeChar (c : Char) : List Char :=
  if c = '\\' then ['\\', '\\'] else if c = '\'' then ['\\', '\''] else [c]

/-- The two replacements work like one: the second does not touch what the first wrote. -/
theorem escape_toList (value : String) :
    (escape value).toList = value.toList.flatMap escapeChar := by
  simp only [escape, replaceChar, String.toList_ofList, List.flatMap_assoc]
  congr 1
  funext c
  rw [escapeChar]
  split
  · rfl
  · simp

/-- The reader gets from `m` to `m'` over the given text, and no token ends there. -/
def Mode.Passes : Mode → List Char → Mode → Prop
  | m, [], m' => m' = m
  | m, c :: cs, m' => (m.next c).1 = [] ∧ (m.next c).2.Passes cs m'

theorem Mode.Passes.append {m : Mode} (h : m.Passes cs m') (h' : m'.Passes cs' m'') :
    m.Passes (cs ++ cs') m'' := by
  induction cs generalizing m with
  | nil => exact h ▸ h'
  | cons c cs ih => exact ⟨h.1, ih h.2⟩

theorem Mode.Passes.tokens {m : Mode} (h : m.Passes cs m') (rest : List Char) :
    FastBackup.tokens m (cs ++ rest) = FastBackup.tokens m' rest := by
  induction cs generalizing m with
  | nil => rw [h, List.nil_append]
  | cons c cs ih =>
    rw [List.cons_append, FastBackup.tokens, h.1, ih h.2]
    simp

theorem Mode.Passes.firstLiteral {m : Mode} (h : m.Passes cs m') (rest : List Char) :
    FastBackup.firstLiteral m (cs ++ rest) = FastBackup.firstLiteral m' rest := by
  induction cs generalizing m with
  | nil => rw [h, List.nil_append]
  | cons c cs ih =>
    rw [List.cons_append, FastBackup.firstLiteral, h.1]
    exact ih h.2

theorem passes_escapeChar (read : List Char) (c : Char) :
    (Mode.lit read).Passes (escapeChar c) (.lit (read ++ [c])) := by
  rw [escapeChar]
  split
  · rename_i he
    simp [Mode.Passes, Mode.next, he]
  · split
    · rename_i he
      simp [Mode.Passes, Mode.next, he]
    · rename_i hb hq
      simp [Mode.Passes, Mode.next, hb, hq]

/-- An escaped value is read unchanged, and stays inside its literal. -/
theorem passes_escape (read value : List Char) :
    (Mode.lit read).Passes (value.flatMap escapeChar) (.lit (read ++ value)) := by
  induction value generalizing read with
  | nil => exact congrArg Mode.lit (List.append_nil read)
  | cons c value ih =>
    rw [List.flatMap_cons, List.append_cons]
    exact (passes_escapeChar read c).append (ih _)

/-- From the opening quote to the closing one. -/
theorem passes_literal (value : String) :
    Mode.between.Passes ('\'' :: (escape value).toList) (.lit value.toList) := by
  rw [escape_toList]
  exact ⟨rfl, passes_escape [] value.toList⟩

theorem tokens_literal (value : String) (rest : List Char) :
    tokens .between ('\'' :: (escape value).toList ++ '\'' :: rest) =
      (tokens .between rest).map (.lit value :: ·) := by
  rw [(passes_literal value).tokens]
  simp [tokens, Mode.next]

theorem firstLiteral_literal (value : String) (rest : List Char) :
    firstLiteral .between ('\'' :: (escape value).toList ++ '\'' :: rest) =
      some (value, .ofList rest) := by
  rw [(passes_literal value).firstLiteral]
  simp [firstLiteral, Mode.next]

/-- What follows the folder id in `folder_query`. -/
def folderRest : String :=
  " in parents and trashed = false and mimeType != 'application/vnd.google-apps.folder'"

/-- What `latest_query` adds. -/
def latestRest : String := " and not appProperties has \x7b key='kind' and value='pre_restore' \x7d"

theorem toList_append_tail {query rest : String} (more : String)
    (hq : query.toList = cs ++ c :: rest.toList) :
    (query ++ more).toList = cs ++ c :: (rest ++ more).toList := by
  rw [String.toList_append, hq, String.toList_append]
  exact List.append_assoc ..

theorem folderQuery_toList (folderId : String) : (folderQuery folderId).toList =
    '\'' :: (escape folderId).toList ++ '\'' :: folderRest.toList := by
  have hquote : "'".toList = ['\''] := String.toList_ofList
  have hterms : "' in parents and trashed = false and mimeType != '".toList = _ :=
    String.toList_ofList
  have hmime : folderMime.toList = _ := String.toList_ofList
  have hrest : folderRest.toList = _ := String.toList_ofList
  simp only [folderQuery, String.toList_append, hquote, hterms, hmime, hrest, List.cons_append,
    List.nil_append, List.append_assoc]

theorem latestQuery_eq (folderId : String) :
    latestQuery folderId = folderQuery folderId ++ latestRest := by
  have hterm : " and not appProperties has \x7b key='" ++ propKind ++ "' and value='" ++
      BackupKind.preRestore.asStr ++ "' \x7d" = latestRest := by
    have hkey : " and not appProperties has \x7b key='".toList = _ := String.toList_ofList
    have hkind : propKind.toList = _ := String.toList_ofList
    have hvalue : "' and value='".toList = _ := String.toList_ofList
    have hpre : BackupKind.preRestore.asStr.toList = _ := String.toList_ofList
    have hend : "' \x7d".toList = _ := String.toList_ofList
    have hlatest : latestRest.toList = _ := String.toList_ofList
    rw [← String.toList_inj, hlatest]
    simp only [String.toList_append]
    rw [hkey, hkind, hvalue, hpre, hend]
    rfl
  rw [latestQuery, ← hterm]
  simp only [String.append_assoc]

theorem latestQuery_toList (folderId : String) : (latestQuery folderId).toList =
    '\'' :: (escape folderId).toList ++ '\'' :: (folderRest ++ latestRest).toList := by
  rw [latestQuery_eq]
  exact toList_append_tail latestRest (folderQuery_toList folderId)

set_option maxRecDepth 10000 in
theorem readQuery_folderQuery (folderId : String) : readQuery (folderQuery folderId) =
    some [.inParents folderId, .trashed false, .mimeTypeNot folderMime] := by
  have ht : tokens .between folderRest.toList = some [.word "in", .word "parents", .word "and",
      .word "trashed", .sym '=', .word "false", .word "and", .word "mimeType", .sym '!', .sym '=',
      .lit folderMime] := by
    have hrest : folderRest.toList = _ := String.toList_ofList
    rw [hrest]
    rfl
  rw [readQuery, folderQuery_toList, tokens_literal, ht]
  rfl

set_option maxRecDepth 10000 in
theorem readQuery_latestQuery (folderId : String) : readQuery (latestQuery folderId) =
    some [.inParents folderId, .trashed false, .mimeTypeNot folderMime,
      .lacksProperty propKind BackupKind.preRestore.asStr] := by
  have ht : tokens .between (folderRest ++ latestRest).toList = some [.word "in", .word "parents",
      .word "and", .word "trashed", .sym '=', .word "false", .word "and", .word "mimeType",
      .sym '!', .sym '=', .lit folderMime, .word "and", .word "not", .word "appProperties",
      .word "has", .sym '{', .word "key", .sym '=', .lit propKind, .word "and", .word "value",
      .sym '=', .lit BackupKind.preRestore.asStr, .sym '}'] := by
    have hrest : folderRest.toList = _ := String.toList_ofList
    have hlatest : latestRest.toList = _ := String.toList_ofList
    rw [String.toList_append, hrest, hlatest]
    rfl
  rw [readQuery, latestQuery_toList, tokens_literal, ht]
  rfl

/-- The folder id cannot escape its literal: a reader of either query gets the id back and then the
fixed rest, so different folders have different queries. -/
theorem folder_id_confined :
    (∀ folderId, firstLiteral .between (folderQuery folderId).toList =
      some (folderId, folderRest)) ∧
    (∀ folderId, firstLiteral .between (latestQuery folderId).toList =
      some (folderId, folderRest ++ latestRest)) ∧
    Function.Injective folderQuery ∧ Function.Injective latestQuery := by
  have hfolder : ∀ folderId, firstLiteral .between (folderQuery folderId).toList =
      some (folderId, folderRest) := by
    intro folderId
    rw [folderQuery_toList, firstLiteral_literal, String.ofList_toList]
  have hlatest : ∀ folderId, firstLiteral .between (latestQuery folderId).toList =
      some (folderId, folderRest ++ latestRest) := by
    intro folderId
    rw [latestQuery_toList, firstLiteral_literal, String.ofList_toList]
  refine ⟨hfolder, hlatest, ?_, ?_⟩
  · intro id id' he
    have hid := hfolder id
    rw [he, hfolder id'] at hid
    exact (Prod.mk.inj (Option.some.inj hid)).1.symm
  · intro id id' he
    have hid := hlatest id
    rw [he, hlatest id'] at hid
    exact (Prod.mk.inj (Option.some.inj hid)).1.symm

end FastBackup
