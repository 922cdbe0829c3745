import FastBackup.Interaction.Twin
import FastBackup.Server.Alone
import FastBackup.Server.Download
import FastBackup.Server.Grpc
import Mathlib.Data.List.Chain

namespace FastBackup
open Interaction
set_option autoImplicit true

/-- Errors that are the same up to internal details. -/
def Error.Similar : Error → Error → Prop
  | .process program _ _, .process program' _ _ => program = program'
  | .io _ _, .io _ _ => True
  | .storage _, .storage _ => True
  | .config _, .config _ => True
  | .unavailable _, .unavailable _ => True
  | e, e' => e = e'

theorem Error.Similar.refl (e : Error) : e.Similar e := by
  cases e <;> simp [Error.Similar]

/-- The map to statuses hides the details. -/
theorem toStatus_similar (context : String) (he : Error.Similar e e') :
    toStatus context e = toStatus context e' := by
  unfold Error.Similar at he
  split at he
  · rfl
  · rfl
  · rfl
  · rfl
  · rfl
  · rw [he]

/-- Two replies to one call that are the same up to internal details; the texts of failures to
open or read a streamed file are related by `T`. -/
def Call.Alike (T : String → String → Prop) : (e : Call) → e.Reply → e.Reply → Prop
  | .tempFile _ => EndAlike (fun _ _ => True) Eq
  | .dump _ => EndAlike Error.Similar Eq
  | .upload _ => EndAlike Error.Similar Eq
  | .list _ _ => EndAlike Error.Similar Eq
  | .latest => EndAlike Error.Similar Eq
  | .get _ => EndAlike Error.Similar Eq
  | .download _ _ => EndAlike Error.Similar Eq
  | .delete _ => EndAlike Error.Similar Eq
  | .restore _ => EndAlike Error.Similar Eq
  | .decompress _ _ => EndAlike (fun _ _ => True) (EndAlike Error.Similar Eq)
  | .openFile _ => EndAlike T Eq
  | .read _ => EndAlike T Eq
  | .tryLock | .unlock | .dropFile _ | .now | .send _ => Eq

/-- Two steps, one of each run, end the same way: if they are the same call they have alike
replies, and if both send a message then the client receives both or neither. -/
structure Alike (T : String → String → Prop) (ev ev' : Ev) : Prop where
  same : ev = ⟨e, r⟩ → ev' = ⟨e, r'⟩ → e.Alike T r r'
  send : ev = ⟨.send item, got⟩ → ev' = ⟨.send item', got'⟩ → got = got'

def Call.reports : Call → Option Status
  | .send (.error status) => some status
  | _ => none

/-- The same call, or two sends of a failure with texts related by `T`. -/
inductive SameCall (T : String → String → Prop) : Call → Call → Prop where
  | same (he : ∀ s, e ≠ .send (.error s)) : SameCall T e e
  | failed (context : String) (ht : T s s') : SameCall T
      (.send (.error ⟨.internal, context ++ s⟩)) (.send (.error ⟨.internal, context ++ s'⟩))

variable {T : String → String → Prop}

/-- Two runs of `p` with alike replies make the same calls and have results related by `Q`. -/
abbrev Discreet (T : String → String → Prop) (Q : α → α → Prop) (p : Svc α) : Prop :=
  Twin (SameCall T) (Alike T) Q p p

abbrev DiscreetE (T : String → String → Prop) (x : SvcE α) : Prop :=
  Discreet T (EndAlike Error.Similar Eq) x.run

theorem discreet_call {k k' : e.Reply → Svc α} {Q : α → α → Prop} (he : e.reports = none)
    (hk : ∀ r r', e.Alike T r r' → Twin (SameCall T) (Alike T) Q (k r) (k' r')) :
    Twin (SameCall T) (Alike T) Q (.call e k) (.call e k') := by
  refine .call (.same ?_) fun _ _ ha => hk _ _ (ha.same rfl rfl)
  rintro s rfl
  cases he

theorem discreet_bind {x : SvcE α} {f : α → SvcE β} (hx : DiscreetE T x)
    (hf : ∀ a, DiscreetE T (f a)) : DiscreetE T (x >>= f) := by
  refine hx.bindE ?_
  rintro a _ rfl
  exact hf a

theorem discreet_throw (e : Error) : DiscreetE T (throw e : SvcE α) := Error.Similar.refl e

theorem discreet_pure (a : α) : DiscreetE T (pure a : SvcE α) := rfl

theorem discreet_tempFile (suffix : String) : DiscreetE T (tempFile suffix) := by
  refine discreet_call rfl fun r r' hr => ?_
  rcases EndAlike.cases hr with ⟨file, _, rfl, rfl, rfl⟩ | ⟨e, e', rfl, rfl, _⟩
  · exact discreet_pure file
  · trivial

theorem discreet_inScope {body : SvcE α} (file : Path) (hb : DiscreetE T body) :
    DiscreetE T (inScope file body) := by
  refine Twin.bind hb fun r r' hr => ?_
  exact discreet_call (e := .dropFile file) rfl fun _ _ _ => hr

theorem discreet_handedOver {body : SvcE α} (file : Path) (hb : DiscreetE T body) :
    DiscreetE T (handedOver file body) := by
  refine Twin.bind hb fun r r' hr => ?_
  rcases hr.cases with ⟨a, _, rfl, rfl, rfl⟩ | ⟨e, e', rfl, rfl, he⟩
  · exact discreet_pure a
  · exact discreet_call (e := .dropFile file) rfl fun _ _ _ => he

theorem discreet_withLock {body : SvcE α} (hb : DiscreetE T body) :
    DiscreetE T (withLock body) := by
  refine discreet_call rfl fun got got' hg => ?_
  cases hg
  cases got with
  | false => exact Error.Similar.refl (.busy _)
  | true =>
    refine Twin.bind (p := body.run) (q := body.run) hb fun r r' hr => ?_
    exact discreet_call (e := .unlock) rfl fun _ _ _ => hr

theorem discreet_dumpAndUpload (deps : ServiceDeps) (kind : BackupKind) :
    DiscreetE T (dumpAndUpload deps kind) := by
  refine discreet_bind (discreet_tempFile _) fun file => discreet_inScope file ?_
  refine discreet_bind (discreet_call rfl fun _ _ hr => hr) fun _ => ?_
  refine discreet_bind (x := Clock.now) (discreet_call rfl fun _ _ hr => hr) fun now => ?_
  exact discreet_call rfl fun _ _ hr => hr

theorem discreet_listAllFrom (n : Nat) (token : Option String) (all : List BackupInfo) :
    DiscreetE T (listAllFrom n token all) := by
  induction n generalizing token all with
  | zero => exact discreet_throw _
  | succ n ih =>
    rw [listAllFrom_succ]
    refine discreet_bind (discreet_call rfl fun _ _ hr => hr) fun page => ?_
    by_cases hm : page.more = true
    · rw [if_pos hm]
      exact ih _ _
    · rw [if_neg hm]
      exact discreet_pure _

theorem discreet_deleteAll (bs : List BackupInfo) : Discreet T Eq (deleteAll bs) := by
  induction bs with
  | nil => rfl
  | cons b bs ih => exact discreet_call rfl fun _ _ _ => ih

theorem discreet_pruneOldBackups (deps : ServiceDeps) : Discreet T Eq (pruneOldBackups deps) := by
  unfold pruneOldBackups
  cases deps.retention with
  | none => rfl
  | some keep =>
    refine Twin.bind (discreet_listAllFrom _ _ _) fun r r' hr => ?_
    rcases hr.cases with ⟨all, _, rfl, rfl, rfl⟩ | ⟨e, e', rfl, rfl, _⟩
    · exact discreet_deleteAll _
    · rfl

theorem discreet_createBackup (deps : ServiceDeps) : DiscreetE T (createBackup deps) := by
  apply discreet_withLock
  refine discreet_bind (discreet_dumpAndUpload deps .regular) fun info => ?_
  have hp : DiscreetE T (ExceptT.lift (pruneOldBackups deps)) := by
    exact Twin.map (discreet_pruneOldBackups deps) fun _ _ hu => hu
  exact discreet_bind hp fun _ => discreet_pure info

theorem discreet_resolve (target : BackupTarget) : DiscreetE T (resolve target) := by
  cases target with
  | id id => exact discreet_call rfl fun _ _ hr => hr
  | latest =>
    refine discreet_bind (discreet_call rfl fun _ _ hr => hr) fun found => ?_
    cases found with
    | none => exact discreet_throw _
    | some info => exact discreet_pure info

theorem discreet_decompress (src dst : Path) : DiscreetE T (decompress src dst) := by
  refine discreet_call rfl fun r r' hr => ?_
  rcases EndAlike.cases hr with ⟨a, b, rfl, rfl, hab⟩ | ⟨e, e', rfl, rfl, _⟩
  · exact hab
  · trivial

theorem discreet_download (target : BackupTarget) : DiscreetE T (download target) := by
  refine discreet_bind (discreet_resolve target) fun info => ?_
  refine discreet_bind (discreet_tempFile _) fun file => ?_
  refine discreet_bind (discreet_handedOver file (discreet_call rfl fun _ _ hr => hr)) fun _ => ?_
  by_cases hf : info.format ≠ .legacyJsonZstd
  · simp only [if_pos hf]
    exact discreet_pure _
  · simp only [if_neg hf]
    refine discreet_inScope file (discreet_bind (discreet_tempFile _) fun json => ?_)
    exact discreet_bind (discreet_handedOver json (discreet_decompress file json)) fun _ =>
      discreet_pure _

theorem discreet_restore (deps : ServiceDeps) (target : BackupTarget) (confirm : String) :
    DiscreetE T (restore deps target confirm) := by
  unfold restore
  by_cases hc : confirm ≠ deps.restorerDbName
  · rw [if_pos hc]
    exact discreet_throw _
  · rw [if_neg hc]
    apply discreet_withLock
    refine discreet_bind (discreet_resolve target) fun restored => ?_
    by_cases hf : restored.format ≠ .pgCustom
    · simp only [if_pos hf]
      exact discreet_throw _
    · simp only [if_neg hf]
      refine discreet_bind (discreet_tempFile _) fun file => discreet_inScope file ?_
      refine discreet_bind (discreet_call rfl fun _ _ hr => hr) fun _ => ?_
      refine discreet_bind (discreet_dumpAndUpload deps .preRestore) fun copy => ?_
      exact discreet_bind (discreet_call rfl fun _ _ hr => hr) fun _ => discreet_pure _

/-- The one place where the text of a failure goes into a message. -/
theorem discreet_failed (context : String) (ht : T e e') {k : Bool → Svc α} {Q : α → α → Prop}
    (hk : ∀ got, Discreet T Q (k got)) : Twin (SameCall T) (Alike T) Q
      (.call (.send (.error ⟨.internal, context ++ e⟩)) k)
      (.call (.send (.error ⟨.internal, context ++ e'⟩)) k) := by
  refine .call (.failed context ht) fun got got' ha => ?_
  cases ha.send rfl rfl
  exact hk got

theorem discreet_streamLoop (left : Bytes) : Discreet T Eq (streamLoop left) := by
  induction left using streamLoop.induct with
  | case1 left ih =>
    rw [streamLoop]
    simp only [ask, Prog.perform_bind]
    refine discreet_call rfl fun r r' hr => ?_
    rcases EndAlike.cases hr with ⟨n, _, rfl, rfl, rfl⟩ | ⟨e, e', rfl, rfl, ht⟩
    · by_cases hn : min n left.length = 0
      · simp only [dif_pos hn]
        rfl
      · simp only [dif_neg hn]
        refine discreet_call rfl fun got got' hg => ?_
        cases hg
        cases got with
        | false => rfl
        | true => exact ih n hn
    · exact discreet_failed _ ht fun _ => rfl

theorem discreet_streamFile (file : Path) : Discreet T Eq (streamFile file) := by
  refine discreet_call rfl fun r r' hr => ?_
  rcases EndAlike.cases hr with ⟨content, _, rfl, rfl, rfl⟩ | ⟨e, e', rfl, rfl, ht⟩
  · exact discreet_streamLoop content
  · exact discreet_failed _ ht fun _ => rfl

theorem discreet_downloadBackup (target : BackupTarget) :
    Discreet T (EndAlike Error.Similar Eq) (downloadBackup target) := by
  refine Twin.bind (discreet_download target) fun r r' hr => ?_
  rcases hr.cases with ⟨got, _, rfl, rfl, rfl⟩ | ⟨e, e', rfl, rfl, he⟩
  · refine discreet_call rfl fun sent sent' hs => ?_
    cases hs
    cases sent with
    | false => exact discreet_call rfl fun _ _ _ => rfl
    | true =>
      have hs := discreet_streamFile (T := T) got.2
      refine Twin.bind (p := streamFile got.2) (q := streamFile got.2) hs fun _ _ _ => ?_
      exact discreet_call (e := .dropFile got.2) rfl fun _ _ _ => rfl
  · exact he

/-- Outcomes that are the same up to internal details. -/
def Outcome.Alike : Outcome → Outcome → Prop
  | .backup r, .backup r' => EndAlike Error.Similar Eq r r'
  | .restored r, .restored r' => EndAlike Error.Similar Eq r r'
  | .page r, .page r' => EndAlike Error.Similar Eq r r'
  | .file r, .file r' => EndAlike Error.Similar Eq r r'
  | .streamed r, .streamed r' => EndAlike Error.Similar Eq r r'
  | _, _ => False

theorem discreet_body (q : Request) : Discreet T Outcome.Alike q.body := by
  unfold Request.body
  cases q.op with
  | createBackup => exact (discreet_createBackup q.deps).map fun _ _ hr => hr
  | restore target confirm => exact (discreet_restore q.deps target confirm).map fun _ _ hr => hr
  | list size token =>
    have hl : DiscreetE T (listBackups size token) := discreet_call rfl fun _ _ hr => hr
    exact hl.map fun _ _ hr => hr
  | resolve target => exact (discreet_resolve target).map fun _ _ hr => hr
  | download target => exact (discreet_download target).map fun _ _ hr => hr
  | downloadBackup target => exact (discreet_downloadBackup target).map fun _ _ hr => hr

theorem reply_similar {f : α → β} (context : String) (hr : EndAlike Error.Similar Eq r r') :
    GrpcBackup.reply context f r = GrpcBackup.reply context f r' := by
  rcases hr.cases with ⟨a, _, rfl, rfl, rfl⟩ | ⟨e, e', rfl, rfl, he⟩
  · rfl
  · exact congrArg Except.error (toStatus_similar context he)

theorem Rpc.answer_alike (rpc : Rpc) (ho : Outcome.Alike out out') :
    rpc.answer out = rpc.answer out' := by
  cases out <;> cases out' <;> try exact ho.elim
  all_goals cases rpc <;> first | rfl | exact reply_similar _ ho

/-- Every call of a client gets the same reply in two alike runs. -/
theorem discreet_rpc (deps : ServiceDeps) (rpc : Rpc) : Discreet T Eq (rpc.body deps) := by
  rw [Rpc.body_eq]
  cases rpc.op with
  | error status => rfl
  | ok op => exact (discreet_body ⟨deps, op⟩).map fun _ _ ho => rpc.answer_alike ho

/-- The status a failure to open or read the streamed file is reported with. -/
def failure : Ev → Option Status
  | ⟨.openFile _, .error e⟩ => some ⟨.internal, "Could not open download: " ++ e⟩
  | ⟨.read _, .error e⟩ => some ⟨.internal, "Could not read download: " ++ e⟩
  | _ => none

/-- The failure that the last call ended with. -/
def lastFailure (h : List Ev) : Option Status := h.getLast?.bind failure

@[simp] theorem lastFailure_snoc (h : List Ev) (ev : Ev) :
    lastFailure (h ++ [ev]) = failure ev := by
  rw [lastFailure, List.getLast?_concat]
  rfl

/-- A failure is reported by the next call, and nothing else is. -/
def Reporting (h : List Ev) (e : Call) : Prop := e.reports = lastFailure h

theorem reporting_snoc (he : e.reports = failure ev) : Reporting (h ++ [ev]) e :=
  he.trans (lastFailure_snoc ..).symm

theorem reporting_quiet {post : List Ev → α → Prop} {p : Svc α}
    (hp : Safe (fun _ e => e.serves = false) post h p) (hn : lastFailure h = none) :
    Safe Reporting (fun h a => post h a ∧ lastFailure h = none) h p := by
  induction p generalizing h with
  | ret a => exact ⟨hp, hn⟩
  | call e k ih =>
    have hs : e.serves = false := hp.1
    refine Safe.call ?_ fun r => ih r (hp.2 r _ rfl) ?_
    · rw [Reporting, hn]
      cases e with
      | send => cases hs
      | _ => rfl
    · rw [lastFailure_snoc]
      cases e with
      | openFile | read => cases hs
      | _ => rfl

theorem reporting_streamLoop (left : Bytes) (hn : lastFailure h = none) :
    Safe Reporting (fun h _ => lastFailure h = none) h (streamLoop left) := by
  induction left using streamLoop.induct generalizing h with
  | case1 left ih =>
    rw [streamLoop]
    simp only [ask, Prog.perform_bind]
    refine Safe.call hn.symm ?_
    intro r
    cases r with
    | error e =>
      exact Safe.call (reporting_snoc rfl) fun _ => lastFailure_snoc ..
    | ok n =>
      by_cases hz : min n left.length = 0
      · simp only [dif_pos hz]
        exact lastFailure_snoc ..
      · simp only [dif_neg hz]
        refine Safe.call (reporting_snoc rfl) ?_
        intro sent
        cases sent with
        | false => exact lastFailure_snoc ..
        | true => exact ih n hz (lastFailure_snoc ..)

theorem reporting_streamFile (file : Path) (hn : lastFailure h = none) :
    Safe Reporting (fun h _ => lastFailure h = none) h (streamFile file) := by
  refine Safe.call hn.symm ?_
  intro r
  cases r with
  | ok content => exact reporting_streamLoop content (lastFailure_snoc ..)
  | error e => exact Safe.call (reporting_snoc rfl) fun _ => lastFailure_snoc ..

theorem reporting_downloadBackup (target : BackupTarget) :
    Safe Reporting (fun _ _ => True) [] (downloadBackup target) := by
  apply Meets.bind
  refine (reporting_quiet ((download_shape target).mono (fun _ _ hd => hd.2)
    fun _ _ _ => trivial) rfl).post_mono ?_
  rintro h r ⟨_, hn⟩
  cases r with
  | error e => trivial
  | ok got =>
    refine Safe.call hn.symm ?_
    intro sent
    cases sent with
    | false => exact Safe.call (reporting_snoc rfl) fun _ => trivial
    | true =>
      apply Meets.bind (p := streamFile got.2)
      refine (reporting_streamFile got.2 (lastFailure_snoc ..)).post_mono ?_
      intro h' _ hn
      exact Safe.call hn.symm fun _ => trivial

theorem reporting_body (q : Request) : Safe Reporting (fun _ _ => True) [] q.body := by
  have hquiet : ∀ {α : Type} {p : Svc α} {f : α → Outcome} {post : List Ev → α → Prop},
      Safe (fun _ e => e.serves = false) post [] p →
      Safe Reporting (fun _ _ => True) [] (f <$> p) := by
    intro α p f post hp
    exact Meets.map ((reporting_quiet hp rfl).post_mono fun _ _ _ => trivial)
  unfold Request.body
  cases q.op with
  | createBackup =>
    refine hquiet ((createBackup_shape q.deps).mono ?_ fun _ _ h => h)
    intro h e he
    cases e with
    | openFile | read | send => exact he.elim
    | _ => rfl
  | restore target confirm =>
    refine hquiet ((restore_shape q.deps target confirm).mono ?_ fun _ _ h => h)
    intro h e he
    cases e with
    | openFile | read | send => exact he.elim
    | _ => rfl
  | list size token =>
    have hl : Safe (fun _ e => e.serves = false) (fun _ _ => True) []
        (listBackups size token).run := Safe.call rfl fun _ => trivial
    exact hquiet hl
  | resolve target =>
    have hl : Safe (fun _ e => e.serves = false) (fun _ _ => True) []
        (resolve target >>= pure).run :=
      safe_resolve (fun _ _ => rfl) (fun _ => rfl) (fun _ _ _ => trivial) fun _ => trivial
    rw [bind_pure] at hl
    exact hquiet hl
  | download target =>
    exact hquiet ((download_shape target).mono (fun _ _ hd => hd.2) fun _ _ h => h)
  | downloadBackup target => exact Meets.map (reporting_downloadBackup target)

/-- The message a client receives by a step of the stream. -/
def received : Ev → Option (Except Status Proto.DownloadChunk)
  | ⟨.send item, true⟩ => some (item.map DownloadChunk.message)
  | _ => none

/-- What a client has received after the steps `h` of a call with `q` left to do: the messages of
the stream, and the reply of the call when it has returned. -/
def clientView (h : List Ev) (q : Svc (Except Status Response)) :
    List (Except Status Proto.DownloadChunk) × Option (Except Status Response) :=
  (h.filterMap received, match q with
    | .ret reply => some reply
    | .call _ _ => none)

/-- No failure to open or read the streamed file is reported to a client that still receives. -/
def Unreported (h : List Ev) : Prop :=
  h.IsChain fun ev ev' => failure ev = none ∨ received ev' = none

theorem reporting_rpc (deps : ServiceDeps) (rpc : Rpc) :
    Safe Reporting (fun _ _ => True) [] (rpc.body deps) := by
  rw [Rpc.body_eq]
  cases rpc.op with
  | error status => trivial
  | ok op => exact Meets.map (reporting_body ⟨deps, op⟩)

/-- The messages that carry a failure are those that report one to a client that receives. -/
theorem unreported_iff {rpc : Rpc} {deps : ServiceDeps} (hr : Runs (rpc.body deps) h q) :
    Unreported h ↔ ∀ status, (⟨.send (.error status), true⟩ : Ev) ∉ h := by
  have hrep : ∀ h₁ ev h₂, h = h₁ ++ ev :: h₂ → ev.call.reports = lastFailure h₁ := by
    rintro h₁ ev h₂ rfl
    exact (reporting_rpc deps rpc).pre_at hr
  rw [Unreported, List.isChain_iff_forall_rel_of_append_cons_cons]
  constructor
  · intro hc status hm
    obtain ⟨h₁, h₂, he⟩ := List.append_of_mem hm
    have hlast : some status = lastFailure h₁ := hrep h₁ _ h₂ he
    rcases List.eq_nil_or_concat h₁ with rfl | ⟨h₀, ev, rfl⟩
    · cases hlast
    · rw [List.concat_eq_append] at hlast he
      rw [lastFailure_snoc] at hlast
      rw [List.append_assoc] at he
      rcases hc he with hf | hf
      · rw [hf] at hlast
        cases hlast
      · cases hf
  · intro hn ev ev' h₁ h₂ he
    rw [or_iff_not_imp_left]
    intro hf
    have hlast := hrep (h₁ ++ [ev]) ev' h₂ (by rw [he, List.append_assoc]; rfl)
    rw [lastFailure_snoc] at hlast
    obtain ⟨status, hs⟩ := Option.ne_none_iff_exists'.1 hf
    rw [hs] at hlast
    obtain ⟨e, r⟩ := ev'
    cases e with
    | send item =>
      cases item with
      | ok chunk => cases hlast
      | error status' =>
        cases r with
        | false => rfl
        | true => exact absurd (by rw [he]; simp) (hn status')
    | _ => rfl

theorem Alike.mono {T T' : String → String → Prop} (ht : ∀ s s', T s s' → T' s s')
    (ha : Alike T ev ev') : Alike T' ev ev' where
  same {e r r'} he he' := by
    have hr := ha.same he he'
    cases e with
    | openFile | read =>
      rcases EndAlike.cases hr with ⟨a, b, rfl, rfl, hab⟩ | ⟨e, e', rfl, rfl, hd⟩
      · exact hab
      · exact ht _ _ hd
    | _ => exact hr
  send := ha.send

/-- Steps of two runs that send the same way are received or not together. -/
theorem received_isSome (hc : SameCall T ev.call ev'.call) (ha : Alike T ev ev') :
    (received ev).isSome = (received ev').isSome := by
  obtain ⟨e, r⟩ := ev
  obtain ⟨e', r'⟩ := ev'
  have hc : SameCall T e e' := hc
  cases hc with
  | same =>
    cases e with
    | send item =>
      cases ha.send rfl rfl
      cases r <;> rfl
    | _ => rfl
  | failed =>
    cases ha.send rfl rfl
    cases r <;> rfl

/-- Two runs in step whose clients receive the same messages send them at the same steps. -/
theorem received_pairs (hf : List.Forall₂ (fun ev ev' => SameCall T ev.call ev'.call ∧
      Alike T ev ev') h h') (he : h.filterMap received = h'.filterMap received) :
    List.Forall₂ (fun ev ev' => SameCall T ev.call ev'.call ∧ received ev = received ev') h h' := by
  induction hf with
  | nil => exact .nil
  | @cons ev ev' h h' hev _ ih =>
    have hs := received_isSome hev.1 hev.2
    cases hr : received ev with
    | none =>
      rw [hr] at hs
      have hr' : received ev' = none := Option.isNone_iff_eq_none.1 (by simpa using hs.symm)
      rw [List.filterMap_cons_none hr, List.filterMap_cons_none hr'] at he
      exact .cons ⟨hev.1, by rw [hr, hr']⟩ (ih he)
    | some m =>
      rw [hr] at hs
      obtain ⟨m', hr'⟩ := Option.isSome_iff_exists.1 hs.symm
      rw [List.filterMap_cons_some hr, List.filterMap_cons_some hr', List.cons.injEq] at he
      exact .cons ⟨hev.1, by rw [hr, hr', he.1]⟩ (ih he.2)

/-- Without a message that carries a failure, alike steps deliver the same messages. -/
theorem received_eq (hf : List.Forall₂ (fun ev ev' => SameCall T ev.call ev'.call ∧
      Alike T ev ev') h h') (hn : ∀ status, (⟨.send (.error status), true⟩ : Ev) ∉ h) :
    h'.filterMap received = h.filterMap received := by
  induction hf with
  | nil => rfl
  | @cons ev ev' h h' hev _ ih =>
    have hsame : received ev' = received ev := by
      obtain ⟨e, r⟩ := ev
      obtain ⟨e', r'⟩ := ev'
      obtain ⟨hc, ha⟩ := hev
      have hc : SameCall T e e' := hc
      cases hc with
      | same =>
        cases e with
        | send item => rw [ha.send rfl rfl]
        | _ => rfl
      | failed =>
        cases ha.send rfl rfl
        cases r with
        | false => rfl
        | true => exact absurd (List.mem_cons_self ..) (hn _)
    rw [List.filterMap_cons, List.filterMap_cons, hsame,
      ih fun status hm => hn status (List.mem_cons_of_mem _ hm)]

theorem Alike.of_same {e : Call} {r r' : e.Reply} (hr : e.Alike T r r') :
    Alike T ⟨e, r⟩ ⟨e, r'⟩ where
  same he he' := by
    cases he
    cases he'
    exact hr
  send he he' := by
    cases he
    cases he'
    exact hr

/-- Two messages that are received both or not. -/
theorem Alike.of_sent (got : Bool) : Alike T ⟨.send item, got⟩ ⟨.send item', got⟩ where
  same he he' := by
    cases he
    exact eq_of_heq (Event.mk.inj he').2
  send he he' := by
    cases he
    cases he'
    rfl

/-- A reply is alike itself, when the text of a failure is related to itself. -/
theorem Call.alike_self {e : Call} {r : e.Reply} (ht : failure ⟨e, r⟩ = none ∨ ∀ s, T s s) :
    e.Alike T r r := by
  have hport : ∀ {α : Type} (r : Except Error α), EndAlike Error.Similar Eq r r := fun r =>
    .refl Error.Similar.refl (fun _ => rfl) r
  cases e with
  | openFile | read =>
    cases r with
    | ok => rfl
    | error s =>
      rcases ht with hf | ht
      · cases hf
      · exact ht s
  | dump | upload | list | latest | get | download | delete | restore => exact hport r
  | tempFile => exact .refl (fun _ => trivial) (fun _ => rfl) r
  | decompress => exact .refl (fun _ => trivial) hport r
  | tryLock | unlock | dropFile | now | send => rfl

/-- Every reply has an alike one, whatever the texts of failures become. -/
theorem alike_exists (ht : ∀ s, ∃ s', T s s') (e e' : Call) (r : e.Reply) (hc : SameCall T e e') :
    ∃ r' : e'.Reply, Alike T ⟨e, r⟩ ⟨e', r'⟩ := by
  cases hc with
  | same =>
    cases e with
    | openFile | read =>
      cases r with
      | ok => exact ⟨_, .of_same (Call.alike_self (.inl rfl))⟩
      | error s =>
        obtain ⟨s', hs⟩ := ht s
        exact ⟨.error s', .of_same hs⟩
    | _ => exact ⟨r, .of_same (Call.alike_self (.inl rfl))⟩
  | failed => exact ⟨r, .of_sent r⟩

/-- With longer texts of failures, messages that carry one differ. -/
theorem received_longer (hc : SameCall (fun s s' => s' = s ++ "!") ev.call ev'.call)
    (hr : received ev = received ev') (status : Status) : ev ≠ ⟨.send (.error status), true⟩ := by
  rintro rfl
  obtain ⟨e', got⟩ := ev'
  have hc : SameCall _ (.send (.error status)) e' := hc
  generalize hsend : Call.send (.error status) = e at hc
  cases hc with
  | same he => exact he status hsend.symm
  | @failed s s' context hs =>
    cases hsend
    cases got with
    | false => cases hr
    | true =>
      have hmsg : context ++ s = context ++ s' := by
        simpa [received, Except.map] using hr
      have hlen := congrArg String.length hmsg
      rw [hs] at hlen
      simp at hlen

/-- What clients receive does not depend on internal details exactly in the runs in which no
failure to open or read the streamed file is reported to a client that still receives. -/
theorem details_hidden_iff (deps : ServiceDeps) (rpc : Rpc) (h : List Ev)
    (q : Svc (Except Status Response)) (hr : Runs (rpc.body deps) h q) :
    (∀ h' q', Runs (rpc.body deps) h' q' → List.Forall₂ (Alike fun _ _ => True) h h' →
      clientView h' q' = clientView h q) ↔ Unreported h := by
  rw [unreported_iff hr]
  constructor
  · intro hv status hm
    -- a second run whose failures have longer texts
    have hdiscreet := discreet_rpc (T := fun s s' => s' = s ++ "!") deps rpc
    obtain ⟨h', q', hr', ha⟩ := hdiscreet.follow hr (alike_exists fun s => ⟨_, rfl⟩)
    have hview := hv h' q' hr' (ha.imp fun _ _ ha => ha.mono fun _ _ _ => trivial)
    have hpairs := received_pairs (hdiscreet.runs hr hr' ha).1 (congrArg Prod.fst hview).symm
    have hne := (List.forall₂_and_left (R := fun _ _ => True) _ _).1
      (hpairs.imp fun _ _ hp => ⟨received_longer hp.1 hp.2, trivial⟩)
    exact hne.1 _ hm status rfl
  · intro hn h' q' hr' ha
    obtain ⟨hpairs, hleft⟩ := (discreet_rpc deps rpc).runs hr hr' ha
    refine Prod.ext (received_eq hpairs hn) ?_
    cases q with
    | ret reply =>
      cases q' with
      | ret reply' => exact congrArg some hleft.symm
      | call => exact hleft.elim
    | call =>
      cases q' with
      | ret => exact hleft.elim
      | call => rfl

def someDeps : ServiceDeps := ⟨"db", "db", none⟩

/-- A `create_backup` whose dump fails. -/
def failedDump : List Ev :=
  [⟨.tryLock, true⟩, ⟨.tempFile ".pgdump", .ok "f"⟩,
    ⟨.dump "f", .error (.process "pg_dump" "exit status: 1" "no such host")⟩,
    ⟨.dropFile "f", ()⟩, ⟨.unlock, ()⟩]

/-- Whatever the failed dump has printed, the client gets the same reply. -/
theorem details_hidden_dump :
    let reply := .error ⟨.internal, "Backup failed: internal error, see server logs"⟩
    Runs (Rpc.createBackup.body someDeps) failedDump (.ret reply) ∧
    ∀ h' q', Runs (Rpc.createBackup.body someDeps) h' q' →
      List.Forall₂ (Alike fun _ _ => True) failedDump h' →
      clientView h' q' = ([], some reply) := by
  have hr : Runs (Rpc.createBackup.body someDeps) failedDump
      (.ret (.error ⟨.internal, "Backup failed: internal error, see server logs"⟩)) :=
    .cons _ <| .cons _ <| .cons _ <| .cons _ <| .cons _ <| .nil _
  refine ⟨hr, (details_hidden_iff someDeps .createBackup failedDump _ hr).2 ?_⟩
  simp [Unreported, failedDump, failure]

/-- A download whose file cannot be opened for streaming. -/
def failedOpen (text : String) : List Ev :=
  fetched (.id "a") someBackup "f" ++ [⟨.send (.ok (.info someBackup)), true⟩,
    ⟨.openFile "f", .error text⟩,
    ⟨.send (.error ⟨.internal, "Could not open download: " ++ text⟩), true⟩, ⟨.dropFile "f", ()⟩]

theorem failedOpen_exec (text : String) : ∃ s, Exec (Alone mapPorts 0) ([], someWorld)
    (Rpc.body someDeps (.downloadBackup ⟨some (.id "a")⟩)) (failedOpen text)
    (.ret (.ok .stream)) s :=
  ⟨_,
    alone_cons (.get _ (notBusy_ok _) ⟨⟨[2], rfl⟩, rfl, rfl⟩) <|
    alone_cons (.tempFile rfl (by simp [someWorld])) <|
    alone_cons (.download [2] _ ⟨⟨someBackup, rfl⟩, rfl⟩) <|
    alone_cons (.send true) <|
    alone_cons .openFileError <|
    alone_cons (.send true) <|
    alone_cons .dropFile <|
    .nil _ _⟩

theorem failedOpen_received (text : String) (q : Svc (Except Status Response)) :
    (clientView (failedOpen text) q).1 = [.ok (DownloadChunk.info someBackup).message,
      .error ⟨.internal, "Could not open download: " ++ text⟩] := rfl

/-- Two downloads that differ only in the text of the io error by which opening the file failed,
whose clients receive different statuses. -/
theorem details_shown : ∃ s s',
    Exec (Alone mapPorts 0) ([], someWorld)
      (Rpc.body someDeps (.downloadBackup ⟨some (.id "a")⟩)) (failedOpen "x")
      (.ret (.ok .stream)) s ∧
    Exec (Alone mapPorts 0) ([], someWorld)
      (Rpc.body someDeps (.downloadBackup ⟨some (.id "a")⟩)) (failedOpen "y")
      (.ret (.ok .stream)) s' ∧
    List.Forall₂ (Alike fun _ _ => True) (failedOpen "x") (failedOpen "y") ∧
    clientView (failedOpen "x") (.ret (.ok .stream)) ≠
      clientView (failedOpen "y") (.ret (.ok .stream)) := by
  obtain ⟨s, hx⟩ := failedOpen_exec "x"
  obtain ⟨s', hy⟩ := failedOpen_exec "y"
  have hself : ∀ ev : Ev, Alike (fun _ _ => True) ev ev := fun _ =>
    .of_same (Call.alike_self (.inr fun _ => trivial))
  refine ⟨s, s', hx, hy, ?_, ?_⟩
  · exact .cons (hself _) <| .cons (hself _) <| .cons (hself _) <| .cons (hself _) <|
      .cons (.of_same trivial) <| .cons (.of_sent true) <| .cons (hself _) .nil
  · intro he
    have hm := congrArg Prod.fst he
    rw [failedOpen_received, failedOpen_received] at hm
    simp at hm

end FastBackup
