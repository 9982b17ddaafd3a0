import TelegramServer.Secret.Rules
import TelegramServer.Tx.Numbered

/-!
# Encrypted messages are stored once

The qts of a recipient number its events without gaps. A send is stored once as long as every event
that was ever stored for its recipient under its random id is of its chat and still there: the key
of an event spans the chats of a recipient, and goes with the event when it is acknowledged.
-/

namespace TelegramServer.Secret

open Conc Tx Tx.Table List
open Rules (forget rely_pure)

inductive SendCall where
  | send (userID chatID accessHash randomID : Int) (data : Bytes) (limited : Option RPCError)
  | receivedQueue (userID maxQts : Int)
  /-- `AcknowledgeEncryptedEvents` with any bound. -/
  | acknowledge (ownerID maxQts : Int)
  deriving DecidableEq

variable {chats : List SecretChat} {c : SendCall} {x : Section World Op} {q : EncryptedSend}
  {now : Int} {o : Op}

def acknowledgeEncryptedEvents (me : Nat) (ownerID maxQts : Int) : Handler :=
  op me (.deleteEvents ownerID maxQts) fun _ => .ok .done

def SendCall.code (h : Handlers) (me : Nat) : SendCall → Handler
  | .send userID chatID accessHash randomID data limited =>
    handleSendEncryptedMessage h me userID chatID accessHash randomID data limited
  | .receivedQueue userID maxQts => handleReceivedQueue me userID maxQts
  | .acknowledge ownerID maxQts => acknowledgeEncryptedEvents me ownerID maxQts

def sends (h : Handlers) : Crew World Op (Except Err Reply) SendCall Outside where
  code := SendCall.code h
  env := outside

def quietWorld (chats : List SecretChat) (now : Int) : World := { chats, now }

abbrev SendPool := Pool World Op (Except Err Reply) SendCall

/-- Every event that was ever stored for the recipient under the random id is of this chat, and has
not been acknowledged. -/
def Undisturbed (p : EncryptedSend) (s : World) : Prop :=
  p.randomID ≠ 0 → ∀ x ∈ s.stored, x.1.ownerID = p.recipientID → x.1.randomID = p.randomID →
    x.1.chatID = p.chatID ∧ x.1 ∈ s.events

instance (p : EncryptedSend) (s : World) : Decidable (Undisturbed p s) :=
  inferInstanceAs (Decidable (_ → _))

def Op.keyed : Op → Option EncryptedSend
  | .eventByRandomID p => some p
  | .insertEvent p _ => some p
  | _ => none

/-- Where a send looks for its event or inserts it, nobody disturbs it. -/
def Alone (o : Op) (s : World) : Prop := ∀ p ∈ o.keyed, Undisturbed p s

instance (o : Op) (s : World) : Decidable (Alone o s) :=
  inferInstanceAs (Decidable (∀ p ∈ o.keyed, Undisturbed p s))

def SendReached (h : Handlers) (chats : List SecretChat) (now : Int) : SendPool → Prop :=
  (sends h).Reach Alone (quietWorld chats now)

namespace World

variable (s : World)

def qts (userID : Int) : Int := ((s.updateState userID).map (·.qts)).getD 0

def storedFor (userID : Int) : List (EncryptedEvent × Nat) :=
  s.stored.filter fun x => x.1.ownerID = userID

end World

theorem qts_ensureUpdateState (s : World) (userID u : Int) :
    (s.ensureUpdateState userID).qts u = s.qts u := by
  unfold World.ensureUpdateState
  split
  · rfl
  · rename_i habsent
    rw [Bool.not_eq_true, Option.isSome_eq_false_iff, Option.isNone_iff_eq_none] at habsent
    by_cases hu : userID = u
    · subst hu
      simp only [World.qts, World.updateState, find?_append] at habsent ⊢
      simp [habsent]
    · simp [World.qts, World.updateState, find?_append, hu]

theorem updateState_storeEvent (s : World) (e : EncryptedEvent) (me : Nat) (u : Int) :
    (s.storeEvent e me).updateState u = (s.updateState u).map fun r =>
      if r.userID = e.ownerID then { r with qts := r.qts + 1, date := e.date } else r := by
  simp only [World.storeEvent, World.unlock, World.updateState]
  rw [find?_updateWhere_of (fun r hr => by simp)]
  simp

variable {e : EncryptedEvent} {h : Handlers} {n : Nat} {p : EncryptedSend} {s : World}

theorem qts_storeEvent (hrow : (s.updateState e.ownerID).isSome) (me : Nat) (u : Int) :
    (s.storeEvent e me).qts u = s.qts u + if u = e.ownerID then 1 else 0 := by
  rw [World.qts, updateState_storeEvent, World.qts]
  cases hu : s.updateState u with
  | none =>
    have hne : u ≠ e.ownerID := by
      rintro rfl
      simp [hu] at hrow
    simp [hne]
  | some r =>
    obtain rfl : r.userID = u := by simpa using find?_some hu
    by_cases hr : r.userID = e.ownerID <;> simp [hr]

/-! ## The invariant -/

structure SendInv (chats : List SecretChat) (s : World) : Prop where
  chats : s.chats = chats
  locks : (s.locks.map (·.1)).Nodup
  nonneg : ∀ u, 0 ≤ s.qts u
  numbered : ∀ u, Numbered (·.1.qts) (s.storedFor u) (s.qts u)
  events : ∀ e ∈ s.events, ∃ n, (e, n) ∈ s.stored
  keyed : ∀ x ∈ s.stored, ∀ y ∈ s.stored, x.1.ownerID = y.1.ownerID →
    x.1.randomID = y.1.randomID → x.1.randomID ≠ 0 → x = y

def Unstored (ownerID randomID : Int) (s : World) : Prop :=
  randomID ≠ 0 → ∀ x ∈ s.stored, x.1.ownerID = ownerID → x.1.randomID ≠ randomID

/-- The call is about to store the event, and holds the lock of the recipient. -/
structure Pending (n : Nat) (e : EncryptedEvent) (s : World) : Prop where
  lock : (e.ownerID, n) ∈ s.locks
  row : (s.updateState e.ownerID).isSome
  qts : e.qts = s.qts e.ownerID + 1
  unstored : Unstored e.ownerID e.randomID s

def Made (chats : List SecretChat) (c : SendCall) (e : EncryptedEvent) : Prop :=
  ∃ userID accessHash limited chat,
    c = .send userID e.chatID accessHash e.randomID e.bytes limited ∧
      chats.find? (·.id = e.chatID) = some chat ∧ chat.state = .active ∧
      chat.party userID = true ∧ e.ownerID = chat.other userID

def SendWrites (chats : List SecretChat) (n : Nat) (c : SendCall) : Op → World → Prop
  | .commitEvent e, s => Pending n e s ∧ Made chats c e
  | .insertChat .., _ => False
  | .acceptChat .., _ => False
  | .discardChat .., _ => False
  | .bumpState .., _ => False
  | .deliver .., _ => False
  | .nextChatID, _ => False
  | _, _ => True

namespace SendInv

variable {s : World}

theorem storeEvent (h : SendInv chats s) (hp : Pending n e s) :
    SendInv chats (s.storeEvent e n) where
  chats := h.chats
  locks := nodup_locks_apply (.commitEvent e) h.locks
  nonneg := fun u => by
    rw [qts_storeEvent hp.row]
    have := h.nonneg u
    split <;> omega
  numbered := fun u => by
    rw [qts_storeEvent hp.row]
    have hstored : (s.storeEvent e n).storedFor u =
        s.storedFor u ++ if u = e.ownerID then [(e, n)] else [] := by
      by_cases hu : u = e.ownerID
      · simp [World.storedFor, World.storeEvent, World.unlock, filter_append, hu]
      · simp [World.storedFor, World.storeEvent, World.unlock, filter_append, hu, Ne.symm hu]
    rw [hstored]
    by_cases hu : u = e.ownerID
    · subst hu
      rw [if_pos rfl, if_pos rfl]
      exact (h.numbered _).snoc (h.nonneg _) hp.qts
    · rw [if_neg hu, if_neg hu, append_nil, Int.add_zero]
      exact h.numbered u
  events := fun e' he' => by
    rcases mem_append.mp he' with he' | he'
    · obtain ⟨m, hm⟩ := h.events e' he'
      exact ⟨m, mem_append_left _ hm⟩
    · obtain rfl := mem_singleton.mp he'
      exact ⟨n, mem_append_right _ (mem_singleton.mpr rfl)⟩
  keyed := fun x hx y hy howner hrandom hne => by
    rcases mem_append.mp hx with hx | hx
    · rcases mem_append.mp hy with hy | hy
      · exact h.keyed x hx y hy howner hrandom hne
      · obtain rfl := mem_singleton.mp hy
        exact absurd hrandom (hp.unstored (hrandom ▸ hne) x hx howner)
    · obtain rfl := mem_singleton.mp hx
      rcases mem_append.mp hy with hy | hy
      · exact absurd hrandom.symm (hp.unstored hne y hy howner.symm)
      · exact (mem_singleton.mp hy).symm

theorem apply (h : SendInv chats s) (hlegal : SendWrites chats n c o s) :
    SendInv chats (o.apply n s) := by
  cases o with
  | lock key =>
    have hlocks := nodup_locks_apply (n := n) (.lock key) h.locks
    simp only [Op.apply] at hlocks ⊢
    split
    · exact h
    · rename_i hfree
      rw [if_neg hfree] at hlocks
      exact ⟨h.chats, hlocks, h.nonneg, h.numbered, h.events, h.keyed⟩
  | rollback key =>
    exact ⟨h.chats, nodup_locks_apply (.rollback key) h.locks, h.nonneg, h.numbered, h.events,
      h.keyed⟩
  | commitEvent e => exact h.storeEvent hlegal.1
  | notifyEncryption => exact ⟨h.chats, h.locks, h.nonneg, h.numbered, h.events, h.keyed⟩
  | deleteEvents ownerID maxQts =>
    exact ⟨h.chats, h.locks, h.nonneg, h.numbered,
      fun e he => h.events e (mem_of_mem_filter he), h.keyed⟩
  | insertChat | acceptChat | discardChat | bumpState | deliver | nextChatID => exact hlegal.elim
  | _ => exact h

theorem outside (h : SendInv chats s) {s' : World} {e : Outside} (he : outside s e = some s') :
    SendInv chats s' := by
  have hqts : ∀ u, s'.qts u = s.qts u := by
    intro u
    cases e with
    | tick now =>
      obtain ⟨-, rfl⟩ := Option.ite_some_none_eq_some.mp he
      rfl
    | ensureUpdateState userID =>
      cases he
      exact qts_ensureUpdateState s userID u
    | notify fails =>
      cases he
      rfl
  have hstored : ∀ u, s'.storedFor u = s.storedFor u := by
    obtain ⟨now, updateStates, dates, notifyFails, rfl⟩ := outside_frame he
    exact fun u => rfl
  refine ⟨(outside_chats he).trans h.chats, outside_locks he ▸ h.locks, fun u => ?_,
    fun u => ?_, ?_, ?_⟩
  · exact hqts u ▸ h.nonneg u
  · rw [hqts, hstored]
    exact h.numbered u
  · obtain ⟨now, updateStates, dates, notifyFails, rfl⟩ := outside_frame he
    exact h.events
  · obtain ⟨now, updateStates, dates, notifyFails, rfl⟩ := outside_frame he
    exact h.keyed

end SendInv

/-! ## What a call knows -/

def Knows (past : Past) (s : World) : Prop :=
  ∀ x ∈ past, ∀ y ∈ x.pre.stored, y ∈ s.stored

def Has (p : EncryptedSend) (s : World) : Prop :=
  ∃ x ∈ s.stored, x.1.ownerID = p.recipientID ∧ x.1.chatID = p.chatID ∧ x.1.randomID = p.randomID

def SendLegal (chats : List SecretChat) (n : Nat) (c : SendCall) (past : Past) (o : Op)
    (s : World) :
    Prop :=
  SendWrites chats n c o s ∧ Knows past s

def sendRules (chats : List SecretChat) : Rules World Op SendCall :=
  opRules (SendInv chats) Alone (SendLegal chats)

theorem stored_subset_apply (o : Op) (n : Nat) (s : World) :
    ∀ x ∈ s.stored, x ∈ (o.apply n s).stored := by
  cases o with
  | lock | insertChat =>
    simp only [Op.apply]
    split <;> exact fun _ hx => hx
  | commitEvent e => exact fun _ hx => mem_append_left _ hx
  | _ => exact fun _ hx => hx

variable {me : Nat} {past : Past} {P : World → Prop} {A B : Type}
  {userID chatID accessHash randomID : Int} {data : Bytes} {limited : Option RPCError}

theorem Knows.snoc (h : Knows past s) (o : Op) :
    Knows (past ++ [⟨o, s, o.apply me s⟩]) (o.apply me s) := by
  intro x hx y hy
  rcases mem_append.mp hx with hx | hx
  · exact stored_subset_apply o me s y (h x hx y hy)
  · obtain rfl := mem_singleton.mp hx
    exact stored_subset_apply o me s y hy

theorem kept_of_stored (h : ∀ s s' : World, (∀ x ∈ s.stored, x ∈ s'.stored) → P s → P s') :
    (sendRules chats).Kept me P := by
  rintro s s' - - (⟨e, he⟩ | ⟨n, c, past, o, hn, rfl, -⟩)
  · obtain ⟨now, updateStates, dates, notifyFails, rfl⟩ := outside_frame he
    exact h _ _ fun _ hx => hx
  · exact h _ _ (stored_subset_apply o n s)

theorem kept_knows (past : Past) : (sendRules chats).Kept me (Knows past) :=
  kept_of_stored fun _ _ hsub h x hx y hy => hsub y (h x hx y hy)

theorem kept_has (p : EncryptedSend) : (sendRules chats).Kept me (Has p) :=
  kept_of_stored fun _ _ hsub ⟨x, hx, hp⟩ => ⟨x, hsub x hx, hp⟩

/-- Nobody else stores events of a recipient that is locked. -/
theorem kept_pending (e : EncryptedEvent) : (sendRules chats).Kept me (Pending me e) := by
  rintro s s' hinv hinv' hbeside hp
  have hlock := kept_lock e.ownerID s s' hinv hinv' hbeside hp.lock
  rcases hbeside with ⟨o, ho⟩ | ⟨n, c, past, o, hn, rfl, hlegal, -⟩
  · cases o with
    | tick now =>
      obtain ⟨-, rfl⟩ := Option.ite_some_none_eq_some.mp ho
      exact ⟨hlock, hp.row, hp.qts, hp.unstored⟩
    | notify fails =>
      cases ho
      exact ⟨hlock, hp.row, hp.qts, hp.unstored⟩
    | ensureUpdateState userID =>
      obtain rfl := Option.some.inj ho
      refine ⟨hlock, ?_, ?_, ?_⟩
      · unfold World.ensureUpdateState
        split
        · exact hp.row
        · rw [World.updateState, find?_append, Option.isSome_or]
          exact Bool.or_eq_true_iff.mpr (.inl hp.row)
      · rw [qts_ensureUpdateState]
        exact hp.qts
      · obtain ⟨now, updateStates, dates, notifyFails, heq⟩ := outside_frame ho
        intro hne x hx
        exact hp.unstored hne x (by rw [heq] at hx; exact hx)
  · cases o with
    | lock key =>
      simp only [Op.apply] at hlock ⊢
      by_cases hlocked : s.locked key
      · rw [if_pos hlocked] at hlock ⊢
        exact ⟨hlock, hp.row, hp.qts, hp.unstored⟩
      · rw [if_neg hlocked] at hlock ⊢
        exact ⟨hlock, hp.row, hp.qts, hp.unstored⟩
    | rollback key => exact ⟨hlock, hp.row, hp.qts, hp.unstored⟩
    | commitEvent e' =>
      have hother : e'.ownerID ≠ e.ownerID := by
        intro heq
        have hmine := hlegal.1.lock
        rw [heq] at hmine
        exact hn (congrArg Prod.snd (inj_on_of_nodup_map hinv.locks hmine hp.lock rfl))
      refine ⟨hlock, ?_, ?_, ?_⟩
      · change ((s.storeEvent e' n).updateState e.ownerID).isSome
        rw [updateState_storeEvent, Option.isSome_map]
        exact hp.row
      · change e.qts = (s.storeEvent e' n).qts e.ownerID + 1
        rw [qts_storeEvent hlegal.1.row, if_neg (Ne.symm hother), Int.add_zero]
        exact hp.qts
      · intro hne x hx howner
        rcases mem_append.mp hx with hx | hx
        · exact hp.unstored hne x hx howner
        · obtain rfl := mem_singleton.mp hx
          exact absurd howner hother
    | deleteEvents ownerID maxQts => exact ⟨hlock, hp.row, hp.qts, hp.unstored⟩
    | insertChat | acceptChat | discardChat | bumpState | deliver | nextChatID => exact hlegal.elim
    | _ => exact ⟨hlock, hp.row, hp.qts, hp.unstored⟩

theorem rely_knowing {answer : World → A} {f : A → Task B}
    {Q : B → Past → (World → Prop) → Prop} (hknows : ∀ s, P s → Knows past s)
    (h : ∀ s, SendInv chats s → P s → Alone o s → SendWrites chats me c o s ∧
      ∃ P' : World → Prop, P' (o.apply me s) ∧ (sendRules chats).Kept me P' ∧
        (sendRules chats).rely me c (f (answer s)) (past ++ [⟨o, s, o.apply me s⟩])
          (fun t => P' t ∧ Knows (past ++ [⟨o, s, o.apply me s⟩]) t) Q) :
    (sendRules chats).rely me c (op me o answer >>= f) past P Q := by
  refine rely_op fun s hinv hs hok => ?_
  obtain ⟨hwrites, P', hP', hkept, hrest⟩ := h s hinv hs hok
  exact ⟨⟨hwrites, hknows s hs⟩, _, ⟨hP', (hknows s hs).snoc o⟩, hkept.and (kept_knows _), hrest⟩

/-! ## Sends -/

theorem SendInv.has (hinv : SendInv chats s) (hok : Undisturbed p s)
    (he : s.eventByRandomID p.recipientID p.randomID = some e) (hrandom : p.randomID ≠ 0) :
    Has p s := by
  obtain ⟨n, hn⟩ := hinv.events e (mem_of_find?_eq_some he)
  have hkey : e.ownerID = p.recipientID ∧ e.randomID = p.randomID := by
    simpa using find?_some he
  exact ⟨(e, n), hn, hkey.1, (hok hrandom _ hn hkey.1 hkey.2).1, hkey.2⟩

theorem Undisturbed.found (hok : Undisturbed p s) (hrandom : p.randomID ≠ 0) (h : Has p s) :
    (s.eventByRandomID p.recipientID p.randomID).isSome := by
  obtain ⟨x, hx, howner, -, hkey⟩ := h
  exact find?_isSome.mpr ⟨x.1, (hok hrandom x hx howner hkey).2, by simp [howner, hkey]⟩

theorem Undisturbed.unstored (hok : Undisturbed p s)
    (h : s.eventByRandomID p.recipientID p.randomID = none) :
    Unstored p.recipientID p.randomID s := by
  intro hrandom x hx howner hkey
  have hnone := find?_eq_none.mp h x.1 (hok hrandom x hx howner hkey).2
  simp [howner, hkey] at hnone

theorem newEvent_eq_some {date : Int} (h : s.newEvent p date = some e) :
    s.eventByRandomID p.recipientID p.randomID = none ∧
      ∃ row, s.updateState p.recipientID = some row ∧
        e = ⟨p.recipientID, row.qts + 1, p.chatID, p.randomID, p.data, date⟩ := by
  obtain ⟨habsent, h⟩ := Option.ite_none_left_eq_some.mp h
  obtain ⟨row, hrow, rfl⟩ := Option.map_eq_some_iff.mp h
  exact ⟨by simpa using habsent, row, hrow, rfl⟩

structure StoredMeans (p : EncryptedSend) (a : Stored) (past : Past) (P : World → Prop) : Prop where
  knows : ∀ s, P s → Knows past s
  has : (∀ text, a ≠ .failed text) → p.randomID ≠ 0 → ∀ s, P s → Has p s

theorem rely_sendEncryptedMessage (hknows : ∀ s, P s → Knows past s)
    (hmade : ∀ qts date, Made chats c ⟨p.recipientID, qts, p.chatID, p.randomID, p.data, date⟩) :
    (sendRules chats).rely me c (sendEncryptedMessage me p) past P (StoredMeans p) := by
  refine rely_knowing hknows fun s _ _ _ => ⟨trivial, forget ?_⟩
  refine rely_lock fun t _ ht => ⟨⟨trivial, ht.2⟩, Knows _, ht.2.snoc (.lock _), kept_knows _, ?_⟩
  refine rely_knowing (fun _ hs => hs.2) fun u hinv hlock hok => ⟨trivial, ?_⟩
  have hok : Undisturbed p u := hok p rfl
  cases he : u.newEvent p s.now with
  | none =>
    refine forget ?_
    refine rely_knowing (fun _ hs => hs.2) fun v _ _ _ =>
      ⟨trivial, forget ?_⟩
    refine rely_knowing (fun _ hs => hs.2) fun w hw _ hok => ⟨trivial, ?_⟩
    cases hfound : w.eventByRandomID p.recipientID p.randomID with
    | none =>
      exact forget (rely_pure ⟨fun _ hs => hs.2, fun hfailed => absurd rfl (hfailed _)⟩)
    | some e =>
      refine ⟨fun t => p.randomID ≠ 0 → Has p t, fun hne => hw.has (hok p rfl) hfound hne, ?_,
        rely_pure ⟨fun _ hs => hs.2, fun _ hne _ hs => hs.1 hne⟩⟩
      exact fun t t' ht ht' hb hP hne => kept_has p t t' ht ht' hb (hP hne)
  | some e =>
    obtain ⟨habsent, row, hrow, rfl⟩ := newEvent_eq_some he
    have hpending : Pending me ⟨p.recipientID, row.qts + 1, p.chatID, p.randomID, p.data,
        s.now⟩ u :=
      { lock := hlock.1
        row := by rw [hrow]; rfl
        qts := by rw [World.qts, hrow]; rfl
        unstored := hok.unstored habsent }
    refine ⟨Pending me _, hpending, kept_pending _, rely_last fun v _ hv _ =>
      ⟨⟨⟨hv.1, hmade _ _⟩, hv.2⟩, fun t => Has p t ∧ Knows _ t, ⟨?_, hv.2.snoc _⟩,
        (kept_has p).and (kept_knows _), fun _ hs => hs.2, fun _ _ _ hs => hs.1⟩⟩
    exact ⟨_, mem_append_right _ (mem_singleton.mpr rfl), rfl, rfl, rfl⟩

def SendMeans (chats : List SecretChat) (c : SendCall) (a : Except Err Reply) (_ : Past)
    (P : World → Prop) : Prop :=
  match c with
  | .send userID chatID _ randomID data _ =>
    (∃ reply, a = .ok reply) → randomID ≠ 0 → ∃ chat, chats.find? (·.id = chatID) = some chat ∧
      ∀ s, P s → Has ⟨chat.other userID, chatID, randomID, data⟩ s
  | _ => True

theorem rely_sendNewEncrypted {chat : SecretChat}
    (hchat : chats.find? (·.id = chatID) = some chat) (hactive : chat.state = .active)
    (hparty : chat.party userID = true) (hknows : ∀ s, P s → Knows past s) :
    (sendRules chats).rely me (.send userID chatID accessHash randomID data limited)
      (sendNewEncrypted me ⟨chat.other userID, chatID, randomID, data⟩ limited) past P
      (SendMeans chats (.send userID chatID accessHash randomID data limited)) := by
  cases hlimited : limited with
  | some e => exact rely_pure fun ⟨reply, hok⟩ => nomatch hok
  | none =>
    refine Rules.rely_bind (Rules.rely_mono (rely_sendEncryptedMessage hknows ?_) ?_)
    · exact fun qts date => ⟨userID, accessHash, none, chat, rfl, hchat, hactive, hparty, rfl⟩
    · intro a past' P' hmeans
      cases a with
      | failed text => exact rely_pure fun ⟨reply, hok⟩ => nomatch hok
      | dup e => exact rely_pure fun _ hne => ⟨chat, hchat, hmeans.has nofun hne⟩
      | new e =>
        refine rely_knowing hmeans.knows fun s _ hs _ =>
          ⟨trivial, fun t => randomID ≠ 0 → Has ⟨chat.other userID, chatID, randomID, data⟩ t,
            fun hne => hmeans.has nofun hne s hs, ?_,
            rely_pure fun _ hne => ⟨chat, hchat, fun _ ht => ht.1 hne⟩⟩
        exact fun t t' ht ht' hb hP hne => kept_has _ t t' ht ht' hb (hP hne)

theorem rely_handleSendEncryptedMessage (h : Handlers) :
    (sendRules chats).rely me (.send userID chatID accessHash randomID data limited)
      (handleSendEncryptedMessage h me userID chatID accessHash randomID data limited) []
      (fun _ => True) (SendMeans chats (.send userID chatID accessHash randomID data limited)) := by
  have hfail : ∀ e past P, (sendRules chats).rely me
      (.send userID chatID accessHash randomID data limited)
      (fail e) past P (SendMeans chats (.send userID chatID accessHash randomID data limited)) :=
    fun e past P => rely_pure fun ⟨reply, hok⟩ => nomatch hok
  unfold handleSendEncryptedMessage
  by_cases hlong : maxEncryptedData < data.length
  · rw [if_pos hlong]
    exact hfail _ _ _
  rw [if_neg hlong]
  refine rely_knowing (fun _ _ _ hx => nomatch hx) fun s hinv _ _ =>
    ⟨trivial, forget ?_⟩
  cases hchat : s.chatByID chatID with
  | none => exact hfail _ _ _
  | some chat =>
    rw [World.chatByID, hinv.chats] at hchat
    dsimp only
    by_cases hactive : chat.state = .active
    swap
    · rw [if_pos hactive]
      exact hfail _ _ _
    rw [if_neg (not_not_intro hactive)]
    by_cases hparty : chat.party userID = true
    swap
    · rw [if_pos hparty]
      exact hfail _ _ _
    rw [if_neg (not_not_intro hparty)]
    by_cases hhash : accessHash = h.secretChatHash userID chatID
    swap
    · rw [if_pos hhash]
      exact hfail _ _ _
    rw [if_neg (not_not_intro hhash)]
    by_cases hrandom : randomID = 0
    · rw [if_neg (not_not_intro hrandom)]
      exact rely_sendNewEncrypted hchat hactive hparty fun _ hs => hs.2
    rw [if_pos hrandom]
    refine rely_knowing (fun _ hs => hs.2) fun t hinv _ hok => ⟨trivial, ?_⟩
    cases hfound : t.eventByRandomID (chat.other userID) randomID with
    | some e =>
      exact ⟨Has _, hinv.has (hok _ rfl) hfound hrandom, kept_has _,
        rely_pure fun _ _ => ⟨chat, hchat, fun _ hs => hs.1⟩⟩
    | none =>
      exact forget (rely_sendNewEncrypted hchat hactive hparty fun _ hs => hs.2)

theorem rely_send_code (h : Handlers) (n : Nat) (c : SendCall) :
    (sendRules chats).rely n c ((sends h).code n c) [] (fun _ => True) (SendMeans chats c) := by
  have hnil : ∀ s, True → Knows [] s := fun _ _ _ hx => nomatch hx
  cases c with
  | send userID chatID accessHash randomID data limited => exact rely_handleSendEncryptedMessage h
  | receivedQueue userID maxQts =>
    refine rely_knowing hnil fun s _ _ _ => ⟨trivial, forget ?_⟩
    exact rely_last fun t _ ht _ =>
      ⟨⟨trivial, ht.2⟩, forget trivial⟩
  | acknowledge ownerID maxQts =>
    exact rely_last fun t _ ht _ =>
      ⟨⟨trivial, hnil t ht⟩, forget trivial⟩

/-! ## Whole runs -/

theorem sendInv_quietWorld (chats : List SecretChat) (now : Int) :
    SendInv chats (quietWorld chats now) where
  chats := rfl
  locks := nodup_nil
  nonneg := fun _ => Int.le_refl 0
  numbered := fun _ => rfl
  events := nofun
  keyed := nofun

theorem sends_sound (h : Handlers) (chats : List SecretChat) (now : Int) :
    (sendRules chats).Sound (sends h) (quietWorld chats now) fun _ c => SendMeans chats c where
  init := sendInv_quietWorld chats now
  init_fresh := fun _ => trivial
  env := fun _ e _ hinv he => ⟨⟨e, he⟩, hinv.outside he⟩
  may := by
    rintro n c past o s s' hinv ⟨rfl, hlegal⟩
    exact hinv.apply hlegal.1
  fresh := fun _ => Rules.kept_true
  code := rely_send_code h

/-- Every event was stored by a call that was to store it. -/
theorem stored_made {p : SendPool} (hp : SendReached h chats now p) :
    ∀ x ∈ p.shared.stored, ∃ r, p.calls[x.2]? = some r ∧ Made chats r.call x.1 := by
  induction hp with
  | refl => exact nofun
  | @step q q' m hreach hok hstep ih =>
    change (sends h).turn q m = some q' at hstep
    intro x hx
    have hold : x ∈ q.shared.stored → ∃ r, q'.calls[x.2]? = some r ∧ Made chats r.call x.1 := by
      intro hx
      obtain ⟨r, hr, hmade⟩ := ih x hx
      obtain ⟨r', hr', hcall⟩ := Crew.turn_call hstep hr
      exact ⟨r', hr', hcall ▸ hmade⟩
    rcases (sends_sound h chats now).turn hreach hstep hok with
      heq | ⟨e, he⟩ | ⟨i, r, o, -, hr, heq, hlegal, -⟩
    · exact hold (heq ▸ hx)
    · obtain ⟨now, updateStates, dates, notifyFails, heq⟩ := outside_frame he
      exact hold (by rw [heq] at hx; exact hx)
    · rw [heq] at hx
      obtain ⟨r', hr', hcall⟩ := Crew.turn_call hstep hr
      cases o with
      | commitEvent e =>
        rcases mem_append.mp hx with hx | hx
        · exact hold hx
        · obtain rfl := mem_singleton.mp hx
          exact ⟨r', hr', hcall ▸ hlegal.2⟩
      | lock key =>
        refine hold ?_
        simp only [Op.apply] at hx
        split at hx <;> exact hx
      | insertChat b => exact hlegal.elim
      | _ => exact hold hx

def SendCall.Sends (chats : List SecretChat) (c : SendCall) (q : EncryptedSend) : Prop :=
  ∃ userID accessHash limited chat, c = .send userID q.chatID accessHash q.randomID q.data limited ∧
    chats.find? (·.id = q.chatID) = some chat ∧ q.recipientID = chat.other userID

/-- As `Sends`, by a party of an active chat with its access hash and data that is not too long. -/
def SendCall.Valid (h : Handlers) (chats : List SecretChat) (c : SendCall) (q : EncryptedSend) :
    Prop :=
  ∃ userID limited chat,
    c = .send userID q.chatID (h.secretChatHash userID q.chatID) q.randomID q.data limited ∧
      chats.find? (·.id = q.chatID) = some chat ∧ q.recipientID = chat.other userID ∧
      chat.state = .active ∧ chat.party userID = true ∧ q.data.length ≤ maxEncryptedData

/-- A valid send looks for its event, and is answered if there is one. -/
theorem SendCall.Valid.leads (hvalid : c.Valid h chats q) (hrandom : q.randomID ≠ 0)
    {rest : Handler} (hx : x.pre.chats = chats)
    (hl : Crew.Leads (x :: past) ((sends h).code n c) rest) :
    ∃ found : Option EncryptedEvent → Handler,
      (∀ e, found (some e) = .ret (.ok (.sentEncrypted (unix e.date)))) ∧
      Crew.Leads past (op n (.eventByRandomID q)
        (fun t => t.eventByRandomID q.recipientID q.randomID) >>= found) rest := by
  obtain ⟨userID, limited, chat, rfl, hchat, hrecipient, hactive, hparty, hlen⟩ := hvalid
  obtain ⟨recipientID, chatID, randomID, data⟩ := q
  dsimp only at hrecipient hchat hlen hrandom ⊢
  subst hrecipient
  have hfound : x.pre.chatByID chatID = some chat := by rw [World.chatByID, hx, hchat]
  change Crew.Leads _ (handleSendEncryptedMessage h n userID chatID
    (h.secretChatHash userID chatID) randomID data limited) rest at hl
  rw [handleSendEncryptedMessage, if_neg (Nat.not_lt.mpr hlen)] at hl
  have hl := hl.2.2
  simp only [hfound, Conc.Prog.bind] at hl
  rw [if_neg (not_not_intro hactive), if_neg (not_not_intro hparty), if_neg (not_not_intro rfl),
    if_pos hrandom] at hl
  exact ⟨_, fun e => rfl, hl⟩

/-- A valid send whose event was stored before it was served is answered by its second section. -/
theorem retry_answered {p : SendPool}
    (hp : SendReached h chats now p) {i : Nat} {r : Running World Op (Except Err Reply) SendCall}
    (hr : p.calls[i]? = some r) (hvalid : r.call.Valid h chats q)
    (hrandom : q.randomID ≠ 0) (hx : r.past.head? = some x) (hhas : Has q x.pre) :
    (r.past.length = 1 ∧ ∃ l run next, r.rest = .step l run next) ∨
      ∃ date, r.rest = .ret (.ok (.sentEncrypted date)) := by
  have hleads := Crew.leads_past hp hr
  have hpast : ∀ before y after, r.past = before ++ y :: after → SendInv chats y.pre ∧
      Alone y.label y.pre ∧ y.post = y.label.apply i y.pre ∧
        SendLegal chats i r.call before y.label y.pre :=
    fun _ _ _ heq => (sends_sound h chats now).past hp hr heq
  obtain ⟨call, past, rest⟩ := r
  cases past with
  | nil => cases hx
  | cons x' past =>
    obtain rfl : x' = x := Option.some.inj hx
    have hinv : SendInv chats x'.pre := (hpast [] x' past rfl).1
    obtain ⟨found, hfound, hleads⟩ := hvalid.leads hrandom hinv.chats hleads
    cases past with
    | nil =>
      obtain rfl : _ = rest := hleads
      exact .inl ⟨rfl, _, _, _, rfl⟩
    | cons y past =>
      obtain ⟨hlabel, -, hleads⟩ := hleads
      obtain ⟨-, hok, -, -, hknows⟩ := hpast [x'] y past rfl
      have hok : Undisturbed q y.pre := by
        rw [hlabel] at hok
        exact hok q rfl
      obtain ⟨z, hz, hkey⟩ := hhas
      have hsome := hok.found hrandom ⟨z, hknows x' (mem_singleton.mpr rfl) z hz, hkey⟩
      obtain ⟨e, he⟩ := Option.isSome_iff_exists.mp hsome
      have hanswer : found (y.pre.eventByRandomID q.recipientID q.randomID) =
          .ret (.ok (.sentEncrypted (unix e.date))) := by rw [he, hfound]
      change Crew.Leads past (found (y.pre.eventByRandomID q.recipientID q.randomID)) rest at hleads
      rw [hanswer] at hleads
      cases past with
      | nil => exact .inr ⟨_, hleads.symm⟩
      | cons z past => exact hleads.elim

/-- The qts that a recipient was ever given are 1 to its qts, one for each event; an event was
stored by a send of its chat and payload, and is the only one of its random id; a send that succeeds
has its event stored; and a valid send whose event is stored already succeeds. -/
theorem sendEncrypted_once {h : Handlers} {chats : List SecretChat} {now : Int} {p : SendPool}
    (hp : SendReached h chats now p) :
    (∀ u, Numbered (·.1.qts) (p.shared.storedFor u) (p.shared.qts u)) ∧
    (∀ x ∈ p.shared.stored, ∃ r, p.calls[x.2]? = some r ∧ Made chats r.call x.1) ∧
    (∀ x ∈ p.shared.stored, ∀ y ∈ p.shared.stored, x.1.ownerID = y.1.ownerID →
      x.1.randomID = y.1.randomID → x.1.randomID ≠ 0 → x = y) ∧
    (∀ r ∈ p.calls, ∀ reply, r.rest = .ret (.ok reply) → ∀ q, r.call.Sends chats q →
      q.randomID ≠ 0 → Has q p.shared) ∧
    ∀ r ∈ p.calls, ∀ q, r.call.Valid h chats q → q.randomID ≠ 0 → ∀ x, r.past.head? = some x →
      Has q x.pre → (r.past.length = 1 ∧ ∃ l run next, r.rest = .step l run next) ∨
        ∃ date, r.rest = .ret (.ok (.sentEncrypted date)) := by
  have hinv : SendInv chats p.shared := (sends_sound h chats now).inv hp
  refine ⟨hinv.numbered, stored_made hp, hinv.keyed, ?_, ?_⟩
  · intro r hr reply hreply q ⟨userID, accessHash, limited, chat, hcall, hchat, hrecipient⟩ hrandom
    obtain ⟨i, hi⟩ := mem_iff_getElem?.mp hr
    obtain ⟨P, hP, hmeans⟩ := (sends_sound h chats now).returned hp hi hreply
    rw [hcall] at hmeans
    obtain ⟨chat', hchat', hhas⟩ := hmeans ⟨reply, rfl⟩ hrandom
    obtain rfl := Option.some.inj (hchat.symm.trans hchat')
    rw [← hrecipient] at hhas
    exact hhas _ hP
  · intro r hr q hvalid hrandom x hx hhas
    obtain ⟨i, hi⟩ := mem_iff_getElem?.mp hr
    exact retry_answered hp hi hvalid hrandom hx hhas

def twoChats : List SecretChat :=
  [{ id := 1, adminID := 1, participantID := 2, state := .active },
    { id := 2, adminID := 3, participantID := 2, state := .active }]

def sendTwice : List (Crew.Move SendCall Outside) :=
  .env (.ensureUpdateState 2) :: .start (.send 1 1 1 5 [7] none) :: replicate 7 (Crew.Move.run 0) ++
    .start (.send 1 1 1 5 [7] none) :: replicate 2 (.run 1)

theorem sendEncrypted_once_twice :
    ∃ p, SendReached plainHandlers twoChats 0 p ∧ p.calls.length = 2 ∧ p.shared.stored.length = 1 ∧
      p.shared.qts 2 = 1 ∧ ∀ u, Numbered (·.1.qts) (p.shared.storedFor u) (p.shared.qts u) := by
  obtain ⟨p, hp, hcalls, hstored, hqts⟩ : ∃ p, SendReached plainHandlers twoChats 0 p ∧
      p.calls.length = 2 ∧ p.shared.stored.length = 1 ∧ p.shared.qts 2 = 1 :=
    Crew.exists_play sendTwice (by decide +kernel)
  exact ⟨p, hp, hcalls, hstored, hqts, (sendEncrypted_once hp).1⟩

def sendBoth : List (Crew.Move SendCall Outside) :=
  .env (.ensureUpdateState 2) :: .start (.send 1 1 1 5 [7] none) :: replicate 7 (Crew.Move.run 0) ++
    .start (.send 3 2 2 5 [8] none) :: replicate 2 (.run 1)

def sendAcknowledged : List (Crew.Move SendCall Outside) :=
  .env (.ensureUpdateState 2) :: .start (.send 1 1 1 5 [7] none) :: replicate 7 (Crew.Move.run 0) ++
    .start (.acknowledge 2 1) :: .run 1 :: .start (.send 1 1 1 5 [7] none) :: replicate 7 (.run 2)

/-- Another chat of the recipient takes a random id, so a send succeeds with nothing stored; and
an acknowledgement gives it back, so a send is stored twice. -/
theorem random_id_shared_and_forgotten :
    (∃ p, (sends plainHandlers).Reach free (quietWorld twoChats 0) p ∧
      p.calls.map (·.answer) = [some (.ok (.sentEncrypted 0)), some (.ok (.sentEncrypted 0))] ∧
      p.calls.map (·.call) = [.send 1 1 1 5 [7] none, .send 3 2 2 5 [8] none] ∧
      ∀ x ∈ p.shared.stored, x.1.chatID ≠ 2) ∧
    ∃ p, (sends plainHandlers).Reach free (quietWorld twoChats 0) p ∧
      p.shared.stored = [(⟨2, 1, 1, 5, [7], 0⟩, 0), (⟨2, 2, 1, 5, [7], 0⟩, 2)] :=
  ⟨Crew.exists_play sendBoth (by decide +kernel),
    Crew.exists_play sendAcknowledged (by decide +kernel)⟩

end TelegramServer.Secret
