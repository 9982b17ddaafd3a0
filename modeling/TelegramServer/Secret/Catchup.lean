import TelegramServer.Secret.Lifecycle

/-!
# Catching up on secret chats

A client asks for the chats that changed behind its date, and the date it gets back is that of its
`update_state`. A change is dated when its transaction starts and is seen when it commits, so it
reaches the client if no date that the user's state was given by then is as late.
-/

namespace TelegramServer.Secret

open Conc Tx.Table List

variable {adminID chatID id keyFingerprint : Int} {me : Nat} {gAHash gB : Bytes} {e : Outside}
  {date participantID randomID userID : Int} {gA : Bytes} {n : Nat} {o : Op}

inductive CatchCall where
  | life (c : LifeCall)
  | sendMessage (userIDs : List Int)
  | getDifference (others more : Bool)
  deriving DecidableEq

def CatchCall.code (h : Handlers) (userID : Int) (me : Nat) : CatchCall → Handler
  | .life c => c.code h me
  | .sendMessage userIDs => Secret.sendMessage me userIDs
  | .getDifference others more => handleGetDifference h me userID others more

def catchup (h : Handlers) (userID : Int) : Crew World Op (Except Err Reply) CatchCall Outside where
  code := CatchCall.code h userID
  env := outside

/-- No secret chats yet, a client with the given date, and any rows of `update_state`. -/
def startWorld (users : List Int) (states : List UpdateState) (date now : Int) : World :=
  { users, now, updateStates := states, dates := states.map fun r => (r.userID, r.date)
    client := { date } }

abbrev CatchPool := Pool World Op (Except Err Reply) CatchCall

/-- The rows of the user that the change writes are dated behind every date that the user's
`update_state` was ever given, in whole seconds. -/
def DatedAfter (userID : Int) (s s' : World) : Prop :=
  ∀ c ∈ s'.chats, c ∉ s.chats → c.party userID = true →
    ∀ x ∈ s.dates, x.1 = userID → unix x.2 * 1000000 < c.date

instance (userID : Int) (s s' : World) : Decidable (DatedAfter userID s s') :=
  inferInstanceAs (Decidable (∀ c ∈ s'.chats, _ → _ → ∀ x ∈ s.dates, _ → _))

def InTime (userID : Int) (o : Op) (s : World) : Prop := DatedAfter userID s (o.apply 0 s)

instance (userID : Int) (o : Op) (s : World) : Decidable (InTime userID o s) :=
  inferInstanceAs (Decidable (DatedAfter ..))

theorem chats_apply (o : Op) (n m : Nat) (s : World) :
    (o.apply n s).chats = (o.apply m s).chats := by
  cases o with
  | lock | insertChat =>
    simp only [Op.apply]
    split <;> rfl
  | _ => rfl

theorem dates_subset_apply (o : Op) (n : Nat) (s : World) :
    ∀ x ∈ s.dates, x ∈ (o.apply n s).dates := by
  cases o with
  | lock | insertChat =>
    simp only [Op.apply]
    split <;> exact fun _ hx => hx
  | commitEvent | bumpState => exact fun _ hx => mem_append_left _ hx
  | _ => exact fun _ hx => hx

theorem told_subset_apply (o : Op) (n : Nat) (s : World) :
    ∀ x ∈ s.client.told, x ∈ (o.apply n s).client.told := by
  cases o with
  | lock | insertChat =>
    simp only [Op.apply]
    split <;> exact fun _ hx => hx
  | deliver date updates => exact fun _ hx => mem_append_left _ hx
  | _ => exact fun _ hx => hx

/-! ## The invariant -/

/-- A run: the handlers, the user, and what the client and the clock started with. -/
structure Start where
  h : Handlers
  userID : Int
  date : Int
  now : Int
  epoch : 0 < now
  older : date * 1000000 < now

namespace Start

variable (S : Start)

abbrev shown (c : SecretChat) : UpdateEncryption := updateEncryption S.h S.userID c

def Known (date : Int) (s : World) : Prop :=
  date = S.date ∨ date = 0 ∨ ∃ x ∈ s.dates, x.1 = S.userID ∧ date = unix x.2

/-- The chats of the user up to the date are told, or are among the updates. -/
def Covered (date : Int) (updates : List UpdateEncryption) (s : World) : Prop :=
  S.Known date s ∧ ∀ c ∈ s.chats, c.party S.userID = true → c.date ≤ date * 1000000 →
    S.shown c ∈ s.client.told ∨ S.shown c ∈ updates

structure Inv (s : World) : Prop where
  started : S.now ≤ s.now
  dated : ∀ r ∈ s.updateStates, (r.userID, r.date) ∈ s.dates
  covered : S.Covered s.client.date [] s

/-- What one change does: it dates its rows behind the start and behind the dates of the user, and
takes nothing back. -/
structure Goes (s s' : World) : Prop where
  now : ∀ c ∈ s'.chats, c ∉ s.chats → S.now ≤ c.date
  after : DatedAfter S.userID s s'
  dates : ∀ x ∈ s.dates, x ∈ s'.dates
  told : ∀ x ∈ s.client.told, x ∈ s'.client.told

variable {S} {s s' : World} {c : CatchCall} {A B : Type} {answer : World → A} {f : A → Task B}

theorem Known.goes (h : S.Known date s) (hg : S.Goes s s') : S.Known date s' := by
  rcases h with h | h | ⟨x, hx, hx'⟩
  · exact .inl h
  · exact .inr (.inl h)
  · exact .inr (.inr ⟨x, hg.dates x hx, hx'⟩)

theorem Known.lt (h : S.Known date s) (hg : S.Goes s s') {c : SecretChat} (hc : c ∈ s'.chats)
    (hnew : c ∉ s.chats) (hparty : c.party S.userID = true) : date * 1000000 < c.date := by
  have hnow := hg.now c hc hnew
  have hepoch := S.epoch
  have holder := S.older
  rcases h with rfl | rfl | ⟨x, hx, hx', rfl⟩
  · omega
  · omega
  · exact hg.after c hc hnew hparty x hx hx'

theorem Covered.goes {updates : List UpdateEncryption} (h : S.Covered date updates s)
    (hg : S.Goes s s') : S.Covered date updates s' := by
  refine ⟨h.1.goes hg, fun c hc hparty hdate => ?_⟩
  by_cases hold : c ∈ s.chats
  · exact (h.2 c hold hparty hdate).imp_left (hg.told _)
  · have hlt := h.1.lt hg hc hold hparty
    omega

def Delivers (S : Start) (o : Op) (s : World) : Prop :=
  match o with
  | .deliver date updates => S.Covered date updates s
  | _ => True

/-- An operation dates its rows behind the start, is in time, and delivers what covers the chats. -/
def Legal (S : Start) (n : Nat) (o : Op) (s : World) : Prop :=
  (∀ c ∈ (o.apply n s).chats, c ∉ s.chats → S.now ≤ c.date) ∧ InTime S.userID o s ∧ S.Delivers o s

def rules (S : Start) : Rules World Op CatchCall :=
  opRules S.Inv (InTime S.userID) fun n _ _ o s => S.Legal n o s

theorem Legal.goes (h : S.Legal n o s) : S.Goes s (o.apply n s) where
  now := h.1
  after := by
    unfold DatedAfter
    rw [chats_apply o n 0]
    exact h.2.1
  dates := dates_subset_apply o n s
  told := told_subset_apply o n s

theorem goes_outside (he : outside s e = some s') : S.Goes s s' := by
  obtain ⟨now, updateStates, dates, notifyFails, heq⟩ := outside_frame he
  refine ⟨fun c hc hnew => ?_, fun c hc hnew => ?_, fun x hx => ?_, fun x hx => ?_⟩
  · rw [outside_chats he] at hc
    exact absurd hc hnew
  · rw [outside_chats he] at hc
    exact absurd hc hnew
  · cases e with
    | tick now =>
      obtain ⟨-, rfl⟩ := Option.ite_some_none_eq_some.mp he
      exact hx
    | ensureUpdateState userID =>
      cases he
      unfold World.ensureUpdateState
      split
      · exact hx
      · exact mem_append_left _ hx
    | notify fails =>
      cases he
      exact hx
  · rw [heq]
    exact hx

theorem goes_beside (hb : S.rules.Beside me s s') : S.Goes s s' := by
  rcases hb with ⟨e, he⟩ | ⟨n, c, past, o, -, rfl, hlegal⟩
  · exact goes_outside he
  · exact hlegal.goes

theorem kept_covered (me : Nat) (date : Int) (updates : List UpdateEncryption) :
    S.rules.Kept me (S.Covered date updates) :=
  fun _ _ _ _ hb h => h.goes (goes_beside hb)

theorem kept_known (me : Nat) (date : Int) : S.rules.Kept me (S.Known date) :=
  fun _ _ _ _ hb h => h.goes (goes_beside hb)

theorem dated_updateWhere {q : UpdateState → Bool} {f : UpdateState → UpdateState}
    {rows : List UpdateState} {dates more : List (Int × Int)}
    (h : ∀ r ∈ rows, (r.userID, r.date) ∈ dates)
    (hmore : ∀ r, q r = true → ((f r).userID, (f r).date) ∈ more) :
    ∀ r ∈ updateWhere q f rows, (r.userID, r.date) ∈ dates ++ more := by
  intro r hr
  obtain ⟨r', hr', rfl⟩ := mem_map.mp hr
  by_cases hq : q r' = true
  · rw [if_pos hq]
    exact mem_append_right _ (hmore r' hq)
  · rw [if_neg hq]
    exact mem_append_left _ (h r' hr')

theorem Inv.apply (h : S.Inv s) (hlegal : S.Legal n o s) : S.Inv (o.apply n s) := by
  have hcovered := h.covered.goes hlegal.goes
  cases o with
  | lock key =>
    simp only [Op.apply] at hcovered ⊢
    split
    · exact h
    · rename_i hfree
      rw [if_neg hfree] at hcovered
      exact ⟨h.started, h.dated, hcovered⟩
  | insertChat c =>
    simp only [Op.apply] at hcovered ⊢
    split
    · rename_i hconflict
      rw [if_pos hconflict] at hcovered
      exact ⟨h.started, h.dated, hcovered⟩
    · rename_i hconflict
      rw [if_neg hconflict] at hcovered
      exact ⟨h.started, h.dated, hcovered⟩
  | commitEvent e => exact ⟨h.started, dated_updateWhere h.dated (by simp), hcovered⟩
  | bumpState userIDs date =>
    refine ⟨h.started, dated_updateWhere h.dated ?_, hcovered⟩
    simp
  | deliver date updates =>
    have hdelivers : S.Covered date updates s := hlegal.2.2
    refine ⟨h.started, h.dated, hdelivers.1, fun c hc hparty hdate => .inl ?_⟩
    exact mem_append.mpr (hdelivers.2 c hc hparty hdate)
  | _ => exact ⟨h.started, h.dated, hcovered⟩

theorem Inv.outside (h : S.Inv s) (he : outside s e = some s') : S.Inv s' := by
  have hcovered := h.covered.goes (goes_outside he)
  cases e with
  | tick now =>
    obtain ⟨hle, rfl⟩ := Option.ite_some_none_eq_some.mp he
    exact ⟨h.started.trans hle, h.dated, hcovered⟩
  | ensureUpdateState userID =>
    cases he
    unfold World.ensureUpdateState at hcovered ⊢
    split
    · exact h
    · rename_i habsent
      rw [if_neg habsent] at hcovered
      refine ⟨h.started, fun r hr => ?_, hcovered⟩
      rcases mem_append.mp hr with hr | hr
      · exact mem_append_left _ (h.dated r hr)
      · obtain rfl := mem_singleton.mp hr
        exact mem_append_right _ (mem_singleton.mpr rfl)
  | notify fails =>
    cases he
    exact ⟨h.started, h.dated, hcovered⟩

/-! ## Changes of chats -/

def Safe {A : Type} (S : Start) (me : Nat) (c : CatchCall) (prog : Task A) : Prop :=
  ∀ past P, S.rules.rely me c prog past P fun _ _ _ => True

theorem safe_pure (a : A) : S.Safe me c (pure a) := fun _ _ => Rules.rely_pure trivial

theorem Safe.bind {p : Task A} (hp : S.Safe me c p) (hf : ∀ a, S.Safe me c (f a)) :
    S.Safe me c (p >>= f) :=
  fun past P => Rules.rely_bind (Rules.rely_mono (hp past P) fun a past' P' _ => hf a past' P')

structure Aside (S : Start) (o : Op) : Prop where
  chats : ∀ n s, (o.apply n s).chats = s.chats
  delivers : ∀ s, S.Delivers o s

theorem Aside.legal (h : S.Aside o) (n : Nat) : S.Legal n o s := by
  refine ⟨fun c hc hnew => ?_, fun c hc hnew => ?_, h.delivers s⟩
  · rw [h.chats] at hc
    exact absurd hc hnew
  · rw [h.chats] at hc
    exact absurd hc hnew

theorem safe_last (h : ∀ s, InTime S.userID o s → S.Legal me o s) : S.Safe me c (op me o answer) :=
  fun _ _ => rely_last fun s _ _ hok => ⟨h s hok, Rules.forget trivial⟩

theorem Aside.safe (h : S.Aside o) : S.Safe me c (op me o answer) :=
  safe_last fun _ _ => h.legal me

/-- What follows knows that the answer was read from a state in order. -/
theorem Aside.safe_bind (h : S.Aside o)
    (hf : ∀ s, S.Inv s → S.Safe me c (f (answer s))) : S.Safe me c (op me o answer >>= f) :=
  fun _ _ => rely_op fun s hinv _ _ =>
    ⟨h.legal me, Rules.forget (hf s hinv _ _)⟩

theorem legal_dated (hdate : S.now ≤ date)
    (hrows : ∀ c ∈ (o.apply n s).chats, c ∉ s.chats → c.date = date) (hdelivers : S.Delivers o s)
    (hok : InTime S.userID o s) : S.Legal n o s :=
  ⟨fun c hc hnew => by rw [hrows c hc hnew]; exact hdate, hok, hdelivers⟩

theorem safe_advisoryLock (key : Int) : S.Safe me c (advisoryLock me key) := by
  have haside : S.Aside (.lock key) := by
    refine ⟨fun n s => ?_, fun _ => trivial⟩
    simp only [Op.apply]
    split <;> rfl
  intro past P s _ _ _
  refine ⟨⟨rfl, haside.legal me⟩, Rules.forget ?_⟩
  dsimp only
  split
  · trivial
  · trivial

theorem aside_rollback : S.Aside (.rollback adminID) := ⟨fun _ _ => rfl, fun _ => trivial⟩

theorem safe_allocateSecretChat (hdate : S.now ≤ date) :
    S.Safe me c (allocateSecretChat me date adminID participantID gA gAHash randomID) := by
  have hcount : S.Aside (.countRequested adminID) := ⟨fun _ _ => rfl, fun _ => trivial⟩
  have hnext : S.Aside .nextChatID := ⟨fun _ _ => rfl, fun _ => trivial⟩
  refine hcount.safe_bind fun s _ => ?_
  split
  · exact aside_rollback.safe
  · refine hnext.safe_bind fun t _ => ?_
    split
    · exact aside_rollback.safe
    · refine safe_last fun u hok => legal_dated hdate (fun b hb hnew => ?_) trivial hok
      simp only [Op.apply] at hb
      split at hb
      · exact absurd hb hnew
      · rcases mem_append.mp hb with hb | hb
        · exact absurd hb hnew
        · rw [mem_singleton.mp hb]

theorem aside_begins : S.Aside .begins := ⟨fun _ _ => rfl, fun _ => trivial⟩

theorem aside_chatByID (id : Int) : S.Aside (.chatByID id) := ⟨fun _ _ => rfl, fun _ => trivial⟩

theorem aside_notifyEncryption (userID chatID : Int) : S.Aside (.notifyEncryption userID chatID) :=
  ⟨fun _ _ => rfl, fun _ => trivial⟩

theorem safe_createSecretChatRequest :
    S.Safe me c (createSecretChatRequest me adminID participantID gA gAHash randomID) := by
  have hfind : S.Aside (.chatByAdminRandomID adminID randomID) := ⟨fun _ _ => rfl, fun _ => trivial⟩
  refine aside_begins.safe_bind fun s hs => (safe_advisoryLock adminID).bind fun _ => ?_
  split
  · refine hfind.safe_bind fun t _ => ?_
    split
    · exact aside_rollback.safe
    · exact safe_allocateSecretChat hs.started
  · exact safe_allocateSecretChat hs.started

theorem safe_handleRequestEncryption :
    S.Safe me c (handleRequestEncryption S.h me userID participantID gA randomID) := by
  have hlookup : S.Aside (.userByID participantID) := ⟨fun _ _ => rfl, fun _ => trivial⟩
  unfold handleRequestEncryption
  split
  · exact safe_pure _
  split
  · exact safe_pure _
  refine hlookup.safe_bind fun s _ => ?_
  split
  · refine safe_createSecretChatRequest.bind fun a => ?_
    cases a with
    | created b => exact (aside_notifyEncryption _ _).safe_bind fun _ _ => safe_pure _
    | _ => exact safe_pure _
  · exact safe_pure _

theorem legal_map {f : SecretChat → SecretChat} (ho : ∀ n s, (o.apply n s).chats = s.chats.map f)
    (hf : ∀ b, f b = b ∨ (f b).date = date) (hdelivers : ∀ s, S.Delivers o s) (hdate : S.now ≤ date)
    (hok : InTime S.userID o s) : S.Legal me o s := by
  refine legal_dated hdate (fun b hb hnew => ?_) (hdelivers s) hok
  rw [ho] at hb
  obtain ⟨b', hb', rfl⟩ := mem_map.mp hb
  rcases hf b' with heq | heq
  · rw [heq] at hnew
    exact absurd hb' hnew
  · exact heq

theorem safe_acceptSecretChat :
    S.Safe me c (acceptSecretChat me id participantID gB keyFingerprint) := by
  refine aside_begins.safe_bind fun s hs => safe_last fun t hok =>
    legal_map (fun _ _ => rfl) (fun b => ?_) (fun _ => trivial) hs.started hok
  unfold SecretChat.accept
  split
  · exact .inr rfl
  · exact .inl rfl

theorem safe_discardSecretChat : S.Safe me c (discardSecretChat me id) := by
  refine aside_begins.safe_bind fun s hs => safe_last fun t hok =>
    legal_map (fun _ _ => rfl) (fun b => ?_) (fun _ => trivial) hs.started hok
  unfold SecretChat.discard
  split
  · exact .inr rfl
  · exact .inl rfl

theorem safe_handleAcceptEncryption {accessHash : Int} :
    S.Safe me c (handleAcceptEncryption S.h me userID chatID accessHash gB keyFingerprint) := by
  unfold handleAcceptEncryption
  split
  · exact safe_pure _
  split
  · exact safe_pure _
  refine (aside_chatByID _).safe_bind fun s _ => ?_
  split
  · exact safe_pure _
  split
  · exact safe_pure _
  split
  · exact safe_pure _
  refine safe_acceptSecretChat.bind fun a => ?_
  cases a with
  | some b => exact (aside_notifyEncryption _ _).safe_bind fun _ _ => safe_pure _
  | none =>
    refine (aside_chatByID _).safe_bind fun t _ => ?_
    split
    · exact safe_pure _
    · split <;> exact safe_pure _

theorem safe_handleDiscardEncryption : S.Safe me c (handleDiscardEncryption me userID chatID) := by
  refine (aside_chatByID _).safe_bind fun s _ => ?_
  split
  · exact safe_pure _
  split
  · exact safe_pure _
  refine safe_discardSecretChat.bind fun a => ?_
  cases a with
  | none => exact safe_pure _
  | some b => exact (aside_notifyEncryption _ _).safe_bind fun _ _ => safe_pure _

theorem safe_life (b : LifeCall) : S.Safe me c (b.code S.h me) := by
  cases b with
  | request userID participantID gA randomID => exact safe_handleRequestEncryption
  | accept userID chatID accessHash gB keyFingerprint => exact safe_handleAcceptEncryption
  | discard userID chatID => exact safe_handleDiscardEncryption

theorem safe_sendMessage (userIDs : List Int) : S.Safe me c (sendMessage me userIDs) :=
  aside_begins.safe_bind fun _ _ => Aside.safe ⟨fun _ _ => rfl, fun _ => trivial⟩

/-! ## Rounds of the client -/

def Seen (S : Start) (chats : List SecretChat) (updates : List UpdateEncryption)
    (s : World) : Prop :=
  ∀ c ∈ chats, c.party S.userID = true → S.shown c ∈ s.client.told ∨ S.shown c ∈ updates

theorem kept_seen (me : Nat) (chats : List SecretChat) (updates : List UpdateEncryption) :
    S.rules.Kept me (S.Seen chats updates) :=
  fun _ _ _ _ hb h c hc hparty => (h c hc hparty).imp_left ((goes_beside hb).told _)

theorem told_differenceReply (others more : Bool) (updates : List UpdateEncryption) (date : Int) :
    (differenceReply others more updates date).told = (date, updates) := by
  unfold differenceReply
  split
  · rename_i h
    rw [h.2.2]
    rfl
  · split <;> rfl

/-- What the end of a round says of a chat that was there all the time. -/
def RoundMeans (S : Start) (_ : Except Err Reply) (past : Past) (P : World → Prop) : Prop :=
  ∀ c : SecretChat, (∀ x ∈ past, c ∈ x.pre.chats) → c.party S.userID = true →
    ∀ s, P s → S.shown c ∈ s.client.told

theorem rely_handleGetDifference {others more : Bool} :
    S.rules.rely me c (handleGetDifference S.h me S.userID others more) [] (fun _ => True)
      S.RoundMeans := by
  have hask : S.Aside .ask := ⟨fun _ _ => rfl, fun _ => trivial⟩
  have hstate : S.Aside (.getState S.userID) := ⟨fun _ _ => rfl, fun _ => trivial⟩
  refine rely_op fun s hs _ _ => ⟨hask.legal me, S.Covered s.client.date [], hs.covered,
    kept_covered me _ _, ?_⟩
  refine rely_op fun t ht hcovered _ => ⟨hstate.legal me, fun u => S.Covered s.client.date [] u ∧
      S.Known (((t.updateState S.userID).map (unix ·.date)).getD 0) u, ⟨hcovered, ?_⟩,
    (kept_covered me _ _).and (kept_known me _), ?_⟩
  · cases hrow : t.updateState S.userID with
    | none => exact .inr (.inl rfl)
    | some r =>
      have huser : r.userID = S.userID := by simpa using find?_some hrow
      exact .inr (.inr ⟨_, ht.dated r (mem_of_find?_eq_some hrow), huser, rfl⟩)
  · generalize ((t.updateState S.userID).map (unix ·.date)).getD 0 = date
    have hread : S.Aside (.chatsAfterDate S.userID s.client.date) :=
      ⟨fun _ _ => rfl, fun _ => trivial⟩
    refine rely_op fun u _ hu _ => ⟨hread.legal me, ?_⟩
    -- A chat that is not read now is dated up to the client's date, so it is told already.
    have hseen : S.Seen u.chats ((u.chatsAfterDate S.userID s.client.date).map S.shown) u := by
      intro b hb hparty
      by_cases hdate : b.date ≤ s.client.date * 1000000
      · exact .inl ((hu.1.2 b hb hparty hdate).resolve_right not_mem_nil)
      · refine .inr (mem_map_of_mem (mem_filter.mpr ⟨hb, ?_⟩))
        simpa [hparty] using hdate
    refine ⟨fun v => S.Covered date ((u.chatsAfterDate S.userID s.client.date).map S.shown) v ∧
      S.Seen u.chats ((u.chatsAfterDate S.userID s.client.date).map S.shown) v,
      ⟨⟨hu.2, fun b hb hparty _ => hseen b hb hparty⟩, hseen⟩,
      (kept_covered me _ _).and (kept_seen me _ _), ?_⟩
    dsimp only
    rw [told_differenceReply]
    refine rely_last fun v _ hv hok =>
      ⟨⟨fun b hb hnew => absurd hb hnew, hok, hv.1⟩, S.Seen u.chats [],
      fun b hb hparty => .inl (mem_append.mpr (hv.2 b hb hparty)), kept_seen me _ _, ?_⟩
    intro b hb hparty w hw
    have hmem : b ∈ u.chats := hb ⟨.chatsAfterDate S.userID s.client.date, u,
      (Op.chatsAfterDate S.userID s.client.date).apply me u⟩ (by simp)
    exact (hw b hmem hparty).resolve_right not_mem_nil

def Means (S : Start) (c : CatchCall) (a : Except Err Reply) (past : Past)
    (P : World → Prop) : Prop :=
  (∃ others more, c = .getDifference others more) → S.RoundMeans a past P

theorem catchup_sound (S : Start) (users : List Int) (states : List UpdateState) :
    S.rules.Sound (catchup S.h S.userID)
      (startWorld users states S.date S.now) fun _ => S.Means where
  init := by
    refine ⟨Int.le_refl _, fun r hr => mem_map_of_mem hr, .inl rfl, nofun⟩
  init_fresh := fun _ => trivial
  env := fun _ e _ hinv he => ⟨⟨e, he⟩, hinv.outside he⟩
  may := by
    rintro n c past o s s' hinv ⟨rfl, hlegal⟩
    exact hinv.apply hlegal
  fresh := fun _ => Rules.kept_true
  code := by
    intro n c
    cases c with
    | life b =>
      exact Rules.rely_mono (safe_life b _ _) fun _ _ _ _ ⟨_, _, hc⟩ => nomatch hc
    | sendMessage userIDs =>
      exact Rules.rely_mono (safe_sendMessage userIDs _ _) fun _ _ _ _ ⟨_, _, hc⟩ => nomatch hc
    | getDifference others more =>
      exact Rules.rely_mono rely_handleGetDifference fun _ _ _ h _ => h

end Start

/-- What the runs reach in which every change of a chat of the user is in time. -/
def CatchReached (h : Handlers) (userID : Int) (users : List Int) (states : List UpdateState)
    (date now : Int) : CatchPool → Prop :=
  (catchup h userID).Reach (InTime userID) (startWorld users states date now)

/-- A round of the client tells it of every chat of the user as it is, if the chat does not change
during the round, or an earlier round has told it. -/
theorem getDifference_tells_secretChats {h : Handlers} {userID : Int} {users : List Int}
    {states : List UpdateState} {date now : Int} (hepoch : 0 < now) (holder : date * 1000000 < now)
    {p : CatchPool} (hp : CatchReached h userID users states date now p)
    {r : Running World Op (Except Err Reply) CatchCall} (hr : r ∈ p.calls) {others more : Bool}
    (hcall : r.call = .getDifference others more) {a : Except Err Reply} (ha : r.rest = .ret a)
    {c : SecretChat} (hc : ∀ x ∈ r.past, c ∈ x.pre.chats) (hparty : c.party userID = true) :
    updateEncryption h userID c ∈ p.shared.client.told := by
  let S : Start := ⟨h, userID, date, now, hepoch, holder⟩
  obtain ⟨i, hi⟩ := mem_iff_getElem?.mp hr
  obtain ⟨P, hP, hmeans⟩ := (S.catchup_sound users states).returned hp hi ha
  exact hmeans ⟨others, more, hcall⟩ c hc hparty _ hP

/-- The user 1 asks the user 2 for a secret chat, and then the user 2 catches up. -/
def requestThenRound : List (Crew.Move CatchCall Outside) :=
  .start (.life (.request 1 2 (replicate dhValueLen 7) 5)) :: replicate 8 (Crew.Move.run 0) ++
    .start (.getDifference false false) :: replicate 4 (.run 1)

theorem getDifference_tells_secretChats_request :
    ∃ p, CatchReached plainHandlers 2 [1, 2] [] 0 1 p ∧ ∃ c ∈ p.shared.chats,
      updateEncryption plainHandlers 2 c ∈ p.shared.client.told := by
  obtain ⟨p, hp, r, hr, hcall, hanswer, c, hc, hparty, hpast⟩ :
      ∃ p, CatchReached plainHandlers 2 [1, 2] [] 0 1 p ∧ ∃ r ∈ p.calls,
        r.call = .getDifference false false ∧ r.answer.isSome ∧
          ∃ c ∈ p.shared.chats, c.party 2 = true ∧ ∀ x ∈ r.past, c ∈ x.pre.chats :=
    Crew.exists_play requestThenRound (by decide +kernel)
  obtain ⟨a, ha⟩ := Option.isSome_iff_exists.mp hanswer
  exact ⟨p, hp, c, hc, getDifference_tells_secretChats (by decide) (by decide) hp hr hcall
    (Running.rest_of_answer ha) hpast hparty⟩

/-- A request starts at ten seconds, a message to the user 2 is sent at twenty, the user 2 catches
up, the request commits, and the user 2 catches up again. -/
def lateRequest : List (Crew.Move CatchCall Outside) :=
  [.start (.life (.request 1 2 (replicate dhValueLen 7) 5)), .run 0, .run 0,
    .env (.tick 20000000), .start (.sendMessage [2]), .run 1, .run 1,
    .start (.getDifference true false), .run 2, .run 2, .run 2, .run 2,
    .run 0, .run 0, .run 0, .run 0, .run 0, .run 0,
    .start (.getDifference false false), .run 3, .run 3, .run 3, .run 3]

/-- The second round does not tell the client of the chat. -/
theorem late_request_missed : ∃ p, (catchup plainHandlers 2).Reach free
        (startWorld [1, 2] [⟨2, 0, 5000000⟩] 5 10000000) p ∧
      p.shared.client.told = [] ∧
      ∃ r ∈ p.calls, r.call = .getDifference false false ∧ r.answer.isSome ∧
        ∃ c ∈ p.shared.chats, c.party 2 = true ∧ ∀ x ∈ r.past, c ∈ x.pre.chats :=
  Crew.exists_play lateRequest (by decide +kernel)

end TelegramServer.Secret
