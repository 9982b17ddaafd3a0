import TelegramServer.Secret.Rules

/-!
# The life of a secret chat

However requests, accepts and discards interleave, a chat only goes forward, its keys stay once they
are exchanged, only its parties move it, and whoever moves it tells the other party once, unless
`NOTIFY` fails.
-/

namespace TelegramServer.Secret

open Conc List
open Rules (forget rely_pure kept_true rely_bind rely_mono)
open SecretChat (accept party other)

variable {s : World} {f : SecretChat → SecretChat} {x : Section World Op} {users : List Int}
  {gAHash : Bytes} {h : Handlers} {now : Int} {n : Nat} {b : SecretChat}
  {chatID date id keyFingerprint participantID randomID userID : Int} {gA gB : Bytes} {o : Op}
  {s' : World}

inductive LifeCall where
  | request (userID participantID : Int) (gA : Bytes) (randomID : Int)
  | accept (userID chatID accessHash : Int) (gB : Bytes) (keyFingerprint : Int)
  | discard (userID chatID : Int)
  deriving DecidableEq

def LifeCall.user : LifeCall → Int
  | .request userID .. => userID
  | .accept userID .. => userID
  | .discard userID .. => userID

def LifeCall.code (h : Handlers) (me : Nat) : LifeCall → Handler
  | .request userID participantID gA randomID =>
    handleRequestEncryption h me userID participantID gA randomID
  | .accept userID chatID accessHash gB keyFingerprint =>
    handleAcceptEncryption h me userID chatID accessHash gB keyFingerprint
  | .discard userID chatID => handleDiscardEncryption me userID chatID

def lifecycle (h : Handlers) : Crew World Op (Except Err Reply) LifeCall Outside where
  code := LifeCall.code h
  env := outside

def emptyWorld (users : List Int) (now : Int) : World := { users, now }

abbrev LifePool := Pool World Op (Except Err Reply) LifeCall

def LifeReached (h : Handlers) (users : List Int) (now : Int) : LifePool → Prop :=
  (lifecycle h).Reach free (emptyWorld users now)

def Moves (userID : Int) (c c' : SecretChat) : Prop :=
  (c.state = .requested ∧ userID = c.participantID ∧ ∃ gB keyFingerprint date,
      c' = { c with
        state := .active, gAOrB := some gB, keyFingerprint := some keyFingerprint, date }) ∨
    ((c.state = .requested ∨ c.state = .active) ∧ c.party userID = true ∧
      ∃ date, c' = { c with state := .discarded, date })

/-- What becomes of a chat in the end: its parties and the request stay, it goes only forward, its
keys stay once it was accepted, and a discarded chat stays as it is. -/
structure Evolves (c c' : SecretChat) : Prop where
  id : c'.id = c.id
  adminID : c'.adminID = c.adminID
  participantID : c'.participantID = c.participantID
  gA : c'.gA = c.gA
  gAHash : c'.gAHash = c.gAHash
  randomID : c'.randomID = c.randomID
  requested : c'.state = .requested → c' = c
  active : c.state = .active → c'.state = .active → c' = c
  keys : c.state ≠ .requested → c'.gAOrB = c.gAOrB ∧ c'.keyFingerprint = c.keyFingerprint ∧
    (c'.state = .active ∨ c'.state = .discarded)
  discarded : c.state = .discarded → c' = c

theorem Evolves.refl (c : SecretChat) : Evolves c c where
  id := rfl
  adminID := rfl
  participantID := rfl
  gA := rfl
  gAHash := rfl
  randomID := rfl
  requested _ := rfl
  active _ _ := rfl
  keys h := ⟨rfl, rfl, by cases hs : c.state <;> simp_all⟩
  discarded _ := rfl

theorem Evolves.moves {c c' c'' : SecretChat} (h : Evolves c c') (hm : Moves userID c' c'') :
    Evolves c c'' := by
  rcases hm with ⟨hs, -, gB, keyFingerprint, date, rfl⟩ | ⟨hs, -, date, rfl⟩
  · obtain rfl := h.requested hs
    exact
      { id := rfl, adminID := rfl, participantID := rfl, gA := rfl, gAHash := rfl, randomID := rfl
        requested := nofun
        active := fun hc => by simp [hs] at hc
        keys := fun hc => absurd hs hc
        discarded := fun hc => by simp [hs] at hc }
  · exact
      { id := h.id, adminID := h.adminID, participantID := h.participantID, gA := h.gA
        gAHash := h.gAHash, randomID := h.randomID
        requested := nofun
        active := fun _ => nofun
        keys := fun hc => ⟨(h.keys hc).1, (h.keys hc).2.1, .inr rfl⟩
        discarded := fun hc => by
          have heq := h.discarded hc
          rw [heq, hc] at hs
          simp at hs }

/-! ## The invariant -/

structure Inv (s : World) : Prop where
  ids : (s.chats.map (·.id)).Nodup
  locks : (s.locks.map (·.1)).Nodup
  cap : ∀ adminID, (s.requestedBy adminID).length ≤ maxOutstandingSecretChats
  random : ∀ c ∈ s.chats, ∀ c' ∈ s.chats, c.state = .requested → c'.state = .requested →
    c.adminID = c'.adminID → c.randomID = c'.randomID → c.randomID ≠ 0 → c = c'
  parties : ∀ c ∈ s.chats, c.adminID ≠ c.participantID

structure Forward (f : SecretChat → SecretChat) : Prop where
  id : ∀ c, (f c).id = c.id
  adminID : ∀ c, (f c).adminID = c.adminID
  participantID : ∀ c, (f c).participantID = c.participantID
  requested : ∀ c, (f c).state = .requested → f c = c

theorem forward_accept (id participantID : Int) (gB : Bytes) (keyFingerprint date : Int) :
    Forward (accept id participantID gB keyFingerprint date) := by
  constructor <;> intro c <;> unfold accept <;> split <;> simp

theorem forward_discard (id date : Int) : Forward (SecretChat.discard id date) := by
  constructor <;> intro c <;> unfold SecretChat.discard <;> split <;> simp

theorem Forward.requestedBy_le (hf : Forward f) (s : World) (adminID : Int) :
    ({ s with chats := s.chats.map f }.requestedBy adminID).length ≤
      (s.requestedBy adminID).length := by
  simp only [World.requestedBy, ← countP_eq_length_filter, countP_map]
  refine countP_mono_left fun c _ hc => ?_
  simp only [Function.comp, decide_eq_true_eq] at hc ⊢
  rw [hf.requested c hc.2] at hc
  exact hc

namespace Inv

theorem map (h : Inv s) (hf : Forward f) : Inv { s with chats := s.chats.map f } where
  ids := by
    have hids : (s.chats.map f).map (·.id) = s.chats.map (·.id) := by
      rw [map_map]
      exact map_congr_left fun c _ => hf.id c
    rw [hids]
    exact h.ids
  locks := h.locks
  cap := fun adminID => Nat.le_trans (hf.requestedBy_le s adminID) (h.cap adminID)
  random := fun c hc c' hc' hr hr' hadmin hrandom hne => by
    obtain ⟨b, hb, rfl⟩ := mem_map.mp hc
    obtain ⟨b', hb', rfl⟩ := mem_map.mp hc'
    have hfb := hf.requested b hr
    have hfb' := hf.requested b' hr'
    rw [hfb] at hr hadmin hrandom hne ⊢
    rw [hfb'] at hr' hadmin hrandom ⊢
    exact h.random b hb b' hb' hr hr' hadmin hrandom hne
  parties := fun c hc => by
    obtain ⟨b, hb, rfl⟩ := mem_map.mp hc
    rw [hf.adminID, hf.participantID]
    exact h.parties b hb

theorem congr (h : Inv s) (hchats : s'.chats = s.chats) (hlocks : s'.locks = s.locks) : Inv s' where
  ids := hchats.symm ▸ h.ids
  locks := hlocks.symm ▸ h.locks
  cap := fun adminID => by
    rw [World.requestedBy, hchats]
    exact h.cap adminID
  random := hchats.symm ▸ h.random
  parties := hchats.symm ▸ h.parties

theorem unlock (h : Inv s) (key : Int) (me : Nat) : Inv (s.unlock key me) where
  ids := h.ids
  locks := nodup_locks_apply (.rollback key) h.locks
  cap := h.cap
  random := h.random
  parties := h.parties

theorem lock (h : Inv s) (key : Int) (me : Nat) : Inv ((Op.lock key).apply me s) := by
  have hlocks := nodup_locks_apply (n := me) (.lock key) h.locks
  simp only [Op.apply] at hlocks ⊢
  split
  · exact h
  · rename_i hfree
    rw [if_neg hfree] at hlocks
    exact ⟨h.ids, hlocks, h.cap, h.random, h.parties⟩

theorem insertChat (h : Inv s) {c : SecretChat} (hnew : s.conflicts c = false)
    (hparties : c.adminID ≠ c.participantID) (hstate : c.state = .requested)
    (hroom : (s.requestedBy c.adminID).length < maxOutstandingSecretChats) :
    Inv { s with chats := s.chats ++ [c] } := by
  simp only [World.conflicts, decide_eq_false_iff_not, not_or, Bool.not_eq_true,
    Option.isSome_eq_false_iff, Option.isNone_iff_eq_none] at hnew
  obtain ⟨hid, hrandom⟩ := hnew
  have hfresh : ∀ b ∈ s.chats, b.id ≠ c.id := by
    intro b hb
    simpa using find?_eq_none.mp hid b hb
  have hclash : ∀ b ∈ s.chats, b.state = .requested → b.adminID = c.adminID →
      b.randomID = c.randomID → b.randomID = 0 := by
    intro b hb hr hadmin hrand
    by_contra hne
    have hmem : b ∈ s.requestedBy c.adminID := mem_filter.mpr ⟨hb, by simp [hadmin, hr]⟩
    exact absurd (find?_eq_none.mp hrandom b hmem) (by simp [hrand ▸ hne, hrand])
  exact
    { ids := by
        rw [map_append, nodup_append]
        refine ⟨h.ids, by simp, fun i hi j hj heq => ?_⟩
        obtain ⟨b, hb, rfl⟩ := mem_map.mp hi
        obtain rfl : j = c.id := by simpa using hj
        exact hfresh b hb heq
      locks := h.locks
      cap := fun adminID => by
        have hcap := h.cap adminID
        simp only [World.requestedBy, filter_append, length_append] at hcap hroom ⊢
        by_cases hadmin : c.adminID = adminID
        · subst hadmin
          simp only [hstate, decide_true, and_self, filter_cons_of_pos, filter_nil,
            length_singleton]
          omega
        · simp only [hadmin, false_and, decide_false, filter_cons_of_neg, Bool.false_eq_true,
            not_false_eq_true, filter_nil, length_nil]
          omega
      random := fun b hb b' hb' hr hr' hadmin hrand hne => by
        rcases mem_append.mp hb with hold | hlast
        · rcases mem_append.mp hb' with hold' | hlast'
          · exact h.random b hold b' hold' hr hr' hadmin hrand hne
          · obtain rfl := mem_singleton.mp hlast'
            exact absurd (hclash b hold hr hadmin hrand) hne
        · obtain rfl := mem_singleton.mp hlast
          rcases mem_append.mp hb' with hold' | hlast'
          · exact absurd (hrand.trans (hclash b' hold' hr' hadmin.symm hrand.symm)) hne
          · exact (mem_singleton.mp hlast').symm
      parties := fun b hb => by
        rcases mem_append.mp hb with hb | hb
        · exact h.parties b hb
        · obtain rfl := mem_singleton.mp hb
          exact hparties }

end Inv

/-- Where a call of a user writes: it inserts a request of its own under its own lock, it accepts as
the participant, and it discards a chat that it is a party of. -/
def Legal (n : Nat) (userID : Int) : Op → World → Prop
  | .insertChat c, s =>
    (userID, n) ∈ s.locks ∧ c.adminID = userID ∧ c.adminID ≠ c.participantID ∧
      c.state = .requested ∧ (s.requestedBy c.adminID).length < maxOutstandingSecretChats
  | .acceptChat _ participantID .., _ => participantID = userID
  | .discardChat id _, s => ∀ c ∈ s.chats, c.id = id → c.party userID
  | .commitEvent .., _ => False
  | .deleteEvents .., _ => False
  | .bumpState .., _ => False
  | .deliver .., _ => False
  | _, _ => True

def lifeRules : Rules World Op LifeCall :=
  opRules Inv free fun n c _ => Legal n c.user

theorem inv_apply (h : Inv s) (hlegal : Legal n userID o s) : Inv (o.apply n s) := by
  cases o with
  | lock key => exact h.lock key n
  | rollback key => exact h.unlock key n
  | nextChatID | notifyEncryption => exact h.congr rfl rfl
  | insertChat c =>
    obtain ⟨-, -, hparties, hstate, hroom⟩ := hlegal
    simp only [Op.apply]
    split
    · exact h.unlock _ n
    · rename_i hnew
      exact (h.insertChat (by simpa using hnew) hparties hstate hroom).unlock _ n
  | acceptChat id participantID gB keyFingerprint date => exact h.map (forward_accept ..)
  | discardChat id date => exact h.map (forward_discard ..)
  | commitEvent | deleteEvents | bumpState | deliver => exact hlegal.elim
  | _ => exact h

/-- Nobody but the holder of its lock adds requests of a user. -/
theorem kept_room (userID : Int) (me k : Nat) : lifeRules.Kept me fun s =>
    (userID, me) ∈ s.locks ∧ (s.requestedBy userID).length < k := by
  rintro s s' hinv hinv' hbeside ⟨hlock, hroom⟩
  refine ⟨kept_lock userID s s' hinv hinv' hbeside hlock, ?_⟩
  rcases hbeside with ⟨e, he⟩ | ⟨n, c, past, o, hn, rfl, hlegal⟩
  · rw [World.requestedBy, outside_chats he]
    exact hroom
  · cases o with
    | lock key =>
      simp only [Op.apply]
      split <;> exact hroom
    | insertChat b =>
      obtain ⟨hother, hadmin, -⟩ := hlegal
      have hne : b.adminID ≠ userID := by
        intro heq
        rw [← hadmin, heq] at hother
        exact hn (congrArg Prod.snd (inj_on_of_nodup_map hinv.locks hother hlock rfl))
      simp only [Op.apply]
      split
      · exact hroom
      · simpa [World.unlock, World.requestedBy, filter_append, hne] using hroom
    | acceptChat id participantID gB keyFingerprint date =>
      exact Nat.lt_of_le_of_lt ((forward_accept ..).requestedBy_le s userID) hroom
    | discardChat id date =>
      exact Nat.lt_of_le_of_lt ((forward_discard ..).requestedBy_le s userID) hroom
    | commitEvent | deleteEvents | bumpState | deliver => exact hlegal.elim
    | _ => exact hroom

def Op.isNotice : Op → Bool
  | .notifyEncryption .. => true
  | _ => false

def matters (x : Section World Op) : Bool :=
  x.pre.chats ≠ x.post.chats ∨ x.pre.notified ≠ x.post.notified ∨ x.label.isNotice

def Leaves (x : Section World Op) (c : SecretChat) : Prop :=
  c ∈ x.post.chats ∧ c ∉ x.pre.chats

/-- The call has changed nothing and told nobody, or it has changed one chat of its user and then
tried once to tell the other party of it, who was told unless `NOTIFY` failed. -/
def Told (userID : Int) (past : Past) : Prop :=
  past.filter matters = [] ∨ ∃ x y c, past.filter matters = [x, y] ∧ Leaves x c ∧
    x.label.isNotice = false ∧ c.party userID = true ∧
    y.label = .notifyEncryption (c.other userID) c.id ∧
    y.post.notified = y.pre.notified ++ if y.pre.notifyFails then [] else [(c.other userID, c.id)]

theorem notified_apply (h : o.isNotice = false) (s : World) :
    (o.apply n s).notified = s.notified := by
  cases o with
  | notifyEncryption => cases h
  | lock | insertChat =>
    simp only [Op.apply]
    split <;> rfl
  | _ => rfl

variable {me : Nat} {c : LifeCall} {past : Past} {P : World → Prop} {A B : Type}
  {Q : B → Past → (World → Prop) → Prop} {answer : World → A} {p p' : LifePool}

/-- An operation that leaves the chats alone and tells nobody, and what is known after it. -/
theorem rely_aside {f : A → Task B}
    (hchats : ∀ s, (o.apply me s).chats = s.chats) (hnotice : o.isNotice = false)
    (h : ∀ s, P s → Legal me c.user o s ∧ ∃ P' : World → Prop, P' (o.apply me s) ∧
      lifeRules.Kept me P' ∧ ∀ past', past'.filter matters = past.filter matters →
        lifeRules.rely me c (f (answer s)) past' P' Q) :
    lifeRules.rely me c (op me o answer >>= f) past P Q := by
  refine rely_op fun s _ hs _ => ?_
  obtain ⟨hlegal, P', hP', hkept, hrest⟩ := h s hs
  refine ⟨hlegal, P', hP', hkept, hrest _ ?_⟩
  rw [filter_append]
  simp [matters, hchats, hnotice, notified_apply]

theorem rely_read {f : A → Task B}
    (hread : ∀ s, o.apply me s = s) (hnotice : o.isNotice = false)
    (hlegal : ∀ s, Legal me c.user o s)
    (hkept : lifeRules.Kept me P) (h : ∀ s, P s →
      ∀ past', past'.filter matters = past.filter matters →
        lifeRules.rely me c (f (answer s)) past' P Q) :
    lifeRules.rely me c (op me o answer >>= f) past P Q := by
  refine rely_aside (fun s => by rw [hread]) hnotice fun s hs => ?_
  exact ⟨hlegal s, P, (hread s).symm ▸ hs, hkept, h s hs⟩

theorem rely_lastAside {Q : A → Past → (World → Prop) → Prop}
    (hchats : ∀ s, (o.apply me s).chats = s.chats) (hnotice : o.isNotice = false)
    (hlegal : ∀ s, Legal me c.user o s)
    (h : ∀ s past', past'.filter matters = past.filter matters → Q (answer s) past' fun _ => True) :
    lifeRules.rely me c (op me o answer) past P Q := by
  refine rely_last fun s _ hs _ => ⟨hlegal s, forget (h s _ ?_)⟩
  rw [filter_append]
  simp [matters, hchats, hnotice, notified_apply]

/-- The first section of a call that changes a chat. -/
theorem filter_leaves (hpast : past.filter matters = []) (h : Leaves x b) :
    (past ++ [x]).filter matters = [x] := by
  have hmatters : matters x = true := by
    simp only [matters, decide_eq_true_eq]
    exact .inl fun heq => h.2 (heq ▸ h.1)
  rw [filter_append, hpast, nil_append, filter_cons_of_pos hmatters, filter_nil]

/-- The call tells the other party of the chat that it has changed, and answers. -/
theorem rely_notice {reply : Except Err Reply} (hpast : past.filter matters = [x])
    (hleaves : Leaves x b) (hchange : x.label.isNotice = false) (hparty : b.party c.user = true)
    (hother : userID = b.other c.user) :
    lifeRules.rely me c (do notifyEncryption me userID b.id; pure reply) past P
      fun _ past _ => Told c.user past := by
  subst hother
  refine rely_op fun s _ _ _ => ⟨trivial, forget (rely_pure ?_)⟩
  refine .inr ⟨x, ⟨_, s, (Op.notifyEncryption (b.other c.user) b.id).apply me s⟩, b, ?_,
    hleaves, hchange, hparty, rfl, rfl⟩
  rw [filter_append, hpast]
  simp [matters, Op.isNotice, Op.apply]

def CreateMeans (userID participantID : Int) (a : Create) (past : Past) (_ : World → Prop) : Prop :=
  match a with
  | .created b =>
    ∃ x, past.filter matters = [x] ∧ Leaves x b ∧ x.label.isNotice = false ∧
      b.adminID = userID ∧ b.participantID = participantID
  | _ => past.filter matters = []

theorem leaves_insertChat (me : Nat) (h : s.conflicts b = false) :
    Leaves ⟨.insertChat b, s, (Op.insertChat b).apply me s⟩ b := by
  have hpost : ((Op.insertChat b).apply me s).chats = s.chats ++ [b] := by
    simp [Op.apply, h, World.unlock]
  refine ⟨by simp [hpost], fun hmem => ?_⟩
  have hsome : (s.chatByID b.id).isSome := find?_isSome.mpr ⟨b, hmem, by simp⟩
  simp [World.conflicts, hsome] at h

theorem rely_allocateSecretChat (hne : participantID ≠ c.user)
    (hpast : past.filter matters = []) (hlock : ∀ s, P s → (c.user, me) ∈ s.locks) :
    lifeRules.rely me c (allocateSecretChat me date c.user participantID gA gAHash randomID) past P
      (CreateMeans c.user participantID) := by
  refine rely_aside (fun _ => rfl) rfl fun s hs => ⟨trivial, fun t => (c.user, me) ∈ t.locks ∧
    (t.requestedBy c.user).length < (s.requestedBy c.user).length + 1,
    ⟨hlock s hs, Nat.lt_succ_self _⟩,
    kept_room _ _ _, fun past₁ h₁ => ?_⟩
  by_cases hfull : maxOutstandingSecretChats ≤ (s.requestedBy c.user).length
  · rw [if_pos hfull]
    exact rely_lastAside (fun _ => rfl) rfl (fun _ => trivial) fun _ _ h => (h.trans h₁).trans hpast
  rw [if_neg hfull]
  refine rely_aside (fun _ => rfl) rfl fun t ht => ⟨trivial, _, ht, kept_room _ _ _,
    fun past₂ h₂ => ?_⟩
  by_cases hlast : maxInt32 < t.nextChatID
  · rw [if_pos hlast]
    exact rely_lastAside (fun _ => rfl) rfl (fun _ => trivial)
      fun _ _ h => ((h.trans h₂).trans h₁).trans hpast
  rw [if_neg hlast]
  refine rely_last fun u _ hu _ => ⟨⟨hu.1, rfl, Ne.symm hne, rfl, ?_⟩, forget ?_⟩
  · exact Nat.lt_of_lt_of_le hu.2 (by omega)
  · have hquiet : past₂.filter matters = [] := (h₂.trans h₁).trans hpast
    split
    · rename_i hconflict
      simp only [CreateMeans, filter_append, hquiet]
      simp [matters, Op.apply, hconflict, World.unlock, Op.isNotice]
    · rename_i hconflict
      have hleaves := leaves_insertChat me (by simpa using hconflict)
      exact ⟨_, filter_leaves hquiet hleaves, hleaves, rfl, rfl, rfl⟩

theorem chats_lock (key : Int) (s : World) : ((Op.lock key).apply me s).chats = s.chats := by
  simp only [Op.apply]
  split <;> rfl

theorem rely_createSecretChatRequest (hne : participantID ≠ c.user)
    (hpast : past.filter matters = []) :
    lifeRules.rely me c (createSecretChatRequest me c.user participantID gA gAHash randomID) past
      (fun _ => True) (CreateMeans c.user participantID) := by
  refine rely_aside (fun _ => rfl) rfl fun s _ => ⟨trivial, forget fun past₁ h₁ => ?_⟩
  refine rely_lock fun t _ _ => ⟨trivial, forget ?_⟩
  have hquiet : (past₁ ++ [(⟨.lock c.user, t, (Op.lock c.user).apply me t⟩ :
      Section World Op)]).filter matters = [] := by
    rw [filter_append, h₁, hpast]
    simp [matters, chats_lock, notified_apply (o := .lock _) rfl, Op.isNotice]
  by_cases hrandom : randomID ≠ 0
  · rw [if_pos hrandom]
    refine rely_read (fun _ => rfl) rfl (fun _ => trivial) ((kept_lock _).and kept_true)
      fun u _ past₂ h₂ => ?_
    cases u.chatByAdminRandomID c.user randomID with
    | some b =>
      exact rely_lastAside (fun _ => rfl) rfl (fun _ => trivial)
        fun _ _ h => (h.trans h₂).trans hquiet
    | none => exact rely_allocateSecretChat hne (h₂.trans hquiet) fun _ hs => hs.1
  · rw [if_neg hrandom]
    exact rely_allocateSecretChat hne hquiet fun _ hs => hs.1

theorem rely_handleRequestEncryption (h : Handlers) :
    lifeRules.rely me c (handleRequestEncryption h me c.user participantID gA randomID) []
      (fun _ => True) fun _ past _ => Told c.user past := by
  unfold handleRequestEncryption
  by_cases hself : participantID = c.user
  · rw [if_pos hself]
    exact rely_pure (.inl rfl)
  rw [if_neg hself]
  by_cases hdh : validateDHValue h gA
  · rw [if_neg (not_not.mpr hdh)]
    refine rely_read (fun _ => rfl) rfl (fun _ => trivial) kept_true fun s _ past₁ h₁ => ?_
    by_cases huser : participantID ∈ s.users
    · rw [if_pos (by simpa using huser)]
      refine rely_bind (rely_mono (rely_createSecretChatRequest hself h₁) ?_)
      intro a past₂ P₂ hmeans
      cases a with
      | created b =>
        obtain ⟨x, hx, hleaves, hchange, hadmin, hparticipant⟩ := hmeans
        refine rely_notice hx hleaves hchange ?_ ?_
        · simp [party, hadmin]
        · simp [other, hadmin, hparticipant]
      | existing | tooMany | failed => exact rely_pure (.inl hmeans)
    · rw [if_neg (by simpa using huser)]
      exact rely_pure (.inl h₁)
  · rw [if_pos hdh]
    exact rely_pure (.inl rfl)

/-! ## Accepts and discards -/

theorem map_accept_eq_self (h : s.accepted id participantID gB keyFingerprint date = none) :
    s.chats.map (·.accept id participantID gB keyFingerprint date) = s.chats := by
  rw [World.accepted, Option.map_eq_none_iff, find?_eq_none] at h
  refine (map_congr_left fun c hc => ?_).trans (map_id _)
  exact if_neg (of_decide_eq_false (by simpa using h c hc))

theorem map_discard_eq_self (h : s.discarded id date = none) :
    s.chats.map (·.discard id date) = s.chats := by
  rw [World.discarded, Option.map_eq_none_iff, find?_eq_none] at h
  refine (map_congr_left fun c hc => ?_).trans (map_id _)
  exact if_neg (of_decide_eq_false (by simpa using h c hc))

theorem Inv.leaves (hs : Inv s) (hf : Forward f)
    (hb : b ∈ s.chats) (hne : (f b).state ≠ b.state) (me : Nat) (o : Op)
    (ho : (o.apply me s).chats = s.chats.map f) : Leaves ⟨o, s, o.apply me s⟩ (f b) := by
  refine ⟨?_, fun hmem => hne ?_⟩
  · change f b ∈ (o.apply me s).chats
    rw [ho]
    exact mem_map_of_mem hb
  · exact congrArg SecretChat.state (inj_on_of_nodup_map hs.ids hmem hb (hf.id b))

theorem rely_staleAcceptError (hpast : past.filter matters = []) :
    lifeRules.rely me c (staleAcceptError me chatID) past P fun _ past _ => Told c.user past := by
  refine rely_aside (fun _ => rfl) rfl fun s _ => ⟨trivial, forget fun past₁ h₁ => ?_⟩
  cases s.chatByID chatID with
  | none => exact rely_pure (.inl (h₁.trans hpast))
  | some b =>
    dsimp only
    split <;> exact rely_pure (.inl (h₁.trans hpast))

def ChangeMeans (userID : Int) (a : Option SecretChat) (past : Past) (_ : World → Prop) : Prop :=
  match a with
  | some b =>
    ∃ x, past.filter matters = [x] ∧ Leaves x b ∧ x.label.isNotice = false ∧
      b.party userID = true ∧ b.adminID ≠ b.participantID
  | none => past.filter matters = []

theorem rely_acceptSecretChat (hpast : past.filter matters = []) :
    lifeRules.rely me c (acceptSecretChat me id c.user gB keyFingerprint) past P
      fun a past P => ChangeMeans c.user a past P ∧ ∀ b, a = some b → b.participantID = c.user := by
  refine rely_aside (fun _ => rfl) rfl fun s _ => ⟨trivial, forget fun past₁ h₁ => ?_⟩
  have hquiet := h₁.trans hpast
  refine rely_last fun t ht _ _ => ⟨rfl, forget ?_⟩
  cases ha : t.accepted id c.user gB keyFingerprint s.now with
  | none =>
    refine ⟨?_, nofun⟩
    simp only [ChangeMeans, filter_append, hquiet]
    simp [matters, Op.apply, map_accept_eq_self ha, Op.isNotice]
  | some b' =>
    obtain ⟨b, hb, rfl⟩ := Option.map_eq_some_iff.mp ha
    have hmem := mem_of_find?_eq_some hb
    have hfits := find?_some hb
    rw [decide_eq_true_eq] at hfits
    have hf := forward_accept id c.user gB keyFingerprint s.now
    have hstate : (b.accept id c.user gB keyFingerprint s.now).state = .active := by
      rw [accept, if_pos hfits]
    have hleaves := ht.leaves hf hmem (by rw [hstate, hfits.2.2]; decide) me
      (.acceptChat id c.user gB keyFingerprint s.now) rfl
    have hparticipant := (hf.participantID b).trans hfits.2.1
    refine ⟨⟨_, filter_leaves hquiet hleaves, hleaves, rfl, ?_, ?_⟩, ?_⟩
    · simp [party, hparticipant]
    · rw [hf.adminID, hf.participantID]
      exact ht.parties b hmem
    · rintro _ ⟨⟩
      exact hparticipant

theorem rely_handleAcceptEncryption (h : Handlers) {accessHash : Int} :
    lifeRules.rely me c (handleAcceptEncryption h me c.user chatID accessHash gB keyFingerprint) []
      (fun _ => True) fun _ past _ => Told c.user past := by
  unfold handleAcceptEncryption
  cases secretChatID h chatID accessHash c.user with
  | none => exact rely_pure (.inl rfl)
  | some id =>
    dsimp only
    by_cases hdh : validateDHValue h gB
    · rw [if_neg (not_not.mpr hdh)]
      refine rely_read (fun _ => rfl) rfl (fun _ => trivial) kept_true fun s _ past₁ h₁ => ?_
      cases s.chatByID id with
      | none => exact rely_pure (.inl h₁)
      | some b =>
        dsimp only
        by_cases huser : c.user = b.participantID
        · rw [if_neg (not_not.mpr huser)]
          by_cases hgone : b.state = .discarded
          · rw [if_pos hgone]
            exact rely_pure (.inl h₁)
          rw [if_neg hgone]
          refine rely_bind (rely_mono (rely_acceptSecretChat h₁) ?_)
          rintro a past₂ P₂ ⟨hmeans, hparticipant⟩
          cases a with
          | none => exact rely_staleAcceptError hmeans
          | some b' =>
            obtain ⟨x, hx, hleaves, hchange, hparty, hne⟩ := hmeans
            refine rely_notice hx hleaves hchange hparty ?_
            rw [other, if_neg]
            exact fun heq => hne (heq.symm.trans (hparticipant b' rfl).symm)
        · rw [if_pos huser]
          exact rely_pure (.inl h₁)
    · rw [if_pos hdh]
      exact rely_pure (.inl rfl)

def HasParty (id userID : Int) (s : World) : Prop :=
  ∃ b ∈ s.chats, b.id = id ∧ b.party userID = true

theorem kept_hasParty (id userID : Int) : lifeRules.Kept me (HasParty id userID) := by
  rintro s s' - - (⟨e, he⟩ | ⟨n, c, past, o, hn, rfl, hlegal⟩) ⟨b, hb, hid, hparty⟩
  · exact ⟨b, outside_chats he ▸ hb, hid, hparty⟩
  · have hmap : ∀ f, Forward f → HasParty id userID { s with chats := s.chats.map f } := by
      intro f hf
      refine ⟨f b, mem_map_of_mem hb, (hf.id b).trans hid, ?_⟩
      rw [party, hf.adminID, hf.participantID]
      exact hparty
    cases o with
    | lock key => exact ⟨b, (chats_lock key s).symm ▸ hb, hid, hparty⟩
    | insertChat c =>
      simp only [Op.apply]
      split
      · exact ⟨b, hb, hid, hparty⟩
      · exact ⟨b, mem_append_left _ hb, hid, hparty⟩
    | acceptChat id participantID gB keyFingerprint date => exact hmap _ (forward_accept ..)
    | discardChat id date => exact hmap _ (forward_discard ..)
    | commitEvent | deleteEvents | bumpState | deliver => exact hlegal.elim
    | _ => exact ⟨b, hb, hid, hparty⟩

theorem Inv.party (hs : Inv s) (h : HasParty id userID s) :
    ∀ b ∈ s.chats, b.id = id → b.party userID = true := by
  obtain ⟨b, hb, hid, hparty⟩ := h
  intro b' hb' hid'
  obtain rfl := inj_on_of_nodup_map hs.ids hb' hb (hid'.trans hid.symm)
  exact hparty

theorem rely_discardSecretChat (hpast : past.filter matters = [])
    (hP : ∀ s, P s → HasParty id c.user s) :
    lifeRules.rely me c (discardSecretChat me id) past P (ChangeMeans c.user) := by
  refine rely_aside (fun _ => rfl) rfl fun s hs => ⟨trivial, HasParty id c.user, hP s hs,
    kept_hasParty _ _, fun past₁ h₁ => ?_⟩
  have hquiet := h₁.trans hpast
  refine rely_last fun t ht hparty _ => ⟨ht.party hparty, forget ?_⟩
  cases ha : t.discarded id s.now with
  | none =>
    simp only [ChangeMeans, filter_append, hquiet]
    simp [matters, Op.apply, map_discard_eq_self ha, Op.isNotice]
  | some b' =>
    obtain ⟨b, hb, rfl⟩ := Option.map_eq_some_iff.mp ha
    have hmem := mem_of_find?_eq_some hb
    have hfits := find?_some hb
    rw [decide_eq_true_eq] at hfits
    have hf := forward_discard id s.now
    have hstate : (b.discard id s.now).state = .discarded := by
      rw [SecretChat.discard, if_pos hfits]
    have hmoves : (b.discard id s.now).state ≠ b.state := by
      rw [hstate]
      rcases hfits.2 with h | h <;> rw [h] <;> decide
    have hleaves := ht.leaves hf hmem hmoves me (.discardChat id s.now) rfl
    refine ⟨_, filter_leaves hquiet hleaves, hleaves, rfl, ?_, ?_⟩
    · rw [party, hf.adminID, hf.participantID]
      exact ht.party hparty b hmem hfits.1
    · rw [hf.adminID, hf.participantID]
      exact ht.parties b hmem

theorem rely_handleDiscardEncryption :
    lifeRules.rely me c (handleDiscardEncryption me c.user chatID) [] (fun _ => True)
      fun _ past _ => Told c.user past := by
  refine rely_aside (fun _ => rfl) rfl fun s _ => ⟨trivial, ?_⟩
  cases hb : s.chatByID chatID with
  | none =>
    exact forget fun past₁ h₁ => rely_pure (.inl h₁)
  | some b =>
    by_cases hparty : b.party c.user
    · refine ⟨HasParty b.id c.user, ⟨b, mem_of_find?_eq_some hb, rfl, hparty⟩,
        kept_hasParty _ _, fun past₁ h₁ => ?_⟩
      dsimp only
      rw [if_neg (not_not.mpr hparty)]
      refine rely_bind (rely_mono (rely_discardSecretChat h₁ fun _ hs => hs) ?_)
      intro a past₂ P₂ hmeans
      cases a with
      | none => exact rely_pure (.inl hmeans)
      | some b' =>
        obtain ⟨x, hx, hleaves, hchange, hparty', -⟩ := hmeans
        exact rely_notice hx hleaves hchange hparty' rfl
    · refine forget fun past₁ h₁ => ?_
      dsimp only
      rw [if_pos hparty]
      exact rely_pure (.inl h₁)

theorem lifecycle_sound (h : Handlers) (users : List Int) (now : Int) :
    lifeRules.Sound (lifecycle h) (emptyWorld users now) fun _ c _ past _ => Told c.user past where
  init :=
    { ids := by simp [emptyWorld]
      locks := by simp [emptyWorld]
      cap := fun _ => by simp [emptyWorld, World.requestedBy]
      random := by simp [emptyWorld]
      parties := by simp [emptyWorld] }
  init_fresh _ := trivial
  env := by
    intro s e s' hinv he
    exact ⟨⟨e, he⟩, hinv.congr (outside_chats he) (outside_locks he)⟩
  may := by
    rintro n c past o s s' hinv ⟨rfl, hlegal⟩
    exact inv_apply hinv hlegal
  fresh _ := kept_true
  code := by
    intro n c
    cases c with
    | request userID participantID gA randomID =>
      exact rely_handleRequestEncryption (c := .request userID participantID gA randomID) h
    | accept userID chatID accessHash gB keyFingerprint =>
      exact rely_handleAcceptEncryption (c := .accept userID chatID accessHash gB keyFingerprint) h
    | discard userID chatID =>
      exact rely_handleDiscardEncryption (c := .discard userID chatID)

/-! ## Turns and runs -/

/-- What becomes of the chats when a user acts. -/
def Steps (userID : Int) (s s' : World) : Prop :=
  (∀ c ∈ s.chats, ∃ c' ∈ s'.chats, c' = c ∨ Moves userID c c') ∧
    ∀ c' ∈ s'.chats, (∃ c ∈ s.chats, c' = c ∨ Moves userID c c') ∨
      c'.state = .requested ∧ c'.adminID = userID

theorem Steps.of_eq (h : s'.chats = s.chats) : Steps userID s s' := by
  rw [Steps, h]
  exact ⟨fun c hc => ⟨c, hc, .inl rfl⟩, fun c hc => .inl ⟨c, hc, .inl rfl⟩⟩

theorem Steps.of_map (h : s'.chats = s.chats.map f)
    (hf : ∀ c ∈ s.chats, f c = c ∨ Moves userID c (f c)) : Steps userID s s' := by
  rw [Steps, h]
  refine ⟨fun c hc => ⟨f c, mem_map_of_mem hc, hf c hc⟩, fun c' hc' => .inl ?_⟩
  obtain ⟨c, hc, rfl⟩ := mem_map.mp hc'
  exact ⟨c, hc, hf c hc⟩

theorem steps_apply (hlegal : Legal n userID o s) : Steps userID s (o.apply n s) := by
  cases o with
  | lock key => exact .of_eq (chats_lock key s)
  | insertChat b =>
    obtain ⟨-, hadmin, -, hstate, -⟩ := hlegal
    simp only [Op.apply]
    split
    · exact .of_eq rfl
    · refine ⟨fun c hc => ⟨c, mem_append_left _ hc, .inl rfl⟩, fun c' hc' => ?_⟩
      rcases mem_append.mp hc' with hc' | hc'
      · exact .inl ⟨c', hc', .inl rfl⟩
      · obtain rfl := mem_singleton.mp hc'
        exact .inr ⟨hstate, hadmin⟩
  | acceptChat id participantID gB keyFingerprint date =>
    refine .of_map rfl fun c _ => ?_
    by_cases hfits : c.id = id ∧ c.participantID = participantID ∧ c.state = .requested
    · refine .inr (.inl ⟨hfits.2.2, ?_, gB, keyFingerprint, date, if_pos hfits⟩)
      exact hlegal.symm.trans hfits.2.1.symm
    · exact .inl (if_neg hfits)
  | discardChat id date =>
    refine .of_map rfl fun c hc => ?_
    by_cases hfits : c.id = id ∧ (c.state = .requested ∨ c.state = .active)
    · exact .inr (.inr ⟨hfits.2, hlegal c hc hfits.1, date, if_pos hfits⟩)
    · exact .inl (if_neg hfits)
  | commitEvent | deleteEvents | bumpState | deliver => exact hlegal.elim
  | _ => exact .of_eq rfl

/-- The call whose turn it is moves the chats of its user, and nobody else does. -/
theorem steps_turn (hp : LifeReached h users now p) {m : Crew.Move LifeCall Outside}
    (ht : (lifecycle h).turn p m = some p') :
    p'.shared.chats = p.shared.chats ∨ ∃ (i : Nat)
      (r : Running World Op (Except Err Reply) LifeCall), m = .run i ∧ p.calls[i]? = some r ∧
      Steps r.call.user p.shared p'.shared := by
  have hok : Crew.Allowed free p m := Crew.allowed_of_forall (fun _ _ => trivial) m
  rcases (lifecycle_sound h users now).turn hp ht hok
    with heq | ⟨e, he⟩ | ⟨i, r, o, hm, hr, heq, hlegal⟩
  · exact .inl (by rw [heq])
  · exact .inl (outside_chats he)
  · refine .inr ⟨i, r, hm, hr, ?_⟩
    rw [heq]
    exact steps_apply hlegal

def LifeLater (h : Handlers) : LifePool → LifePool → Prop :=
  (lifecycle h).machine.Reach (Crew.Allowed free)

theorem evolves_later (hp : LifeReached h users now p) (hl : LifeLater h p p') :
    ∀ c ∈ p.shared.chats, ∃ c' ∈ p'.shared.chats, Evolves c c' := by
  induction hl with
  | refl => exact fun c hc => ⟨c, hc, .refl c⟩
  | @step q q' m hreach hok hstep ih =>
    intro c hc
    obtain ⟨c', hc', hev⟩ := ih c hc
    have hq : LifeReached h users now q := Machine.Reach.trans hp hreach
    rcases steps_turn hq hstep with heq | ⟨i, r, -, -, hsteps, -⟩
    · exact ⟨c', heq ▸ hc', hev⟩
    · obtain ⟨c'', hc'', rfl | hmoves⟩ := hsteps c' hc'
      · exact ⟨_, hc'', hev⟩
      · exact ⟨c'', hc'', hev.moves hmoves⟩

/-- A chat is only moved by its parties, from requested to active by its participant or to
discarded, and keeps its keys; nobody has more than the allowed requests outstanding, nor two of
one random id; and a call that has moved a chat has tried once to tell the other party. -/
theorem secretChat_lifecycle {h : Handlers} {users : List Int} {now : Int} {p : LifePool}
    (hp : LifeReached h users now p) :
    (p.shared.chats.map (·.id)).Nodup ∧
    (∀ m p', (lifecycle h).turn p m = some p' → p'.shared.chats = p.shared.chats ∨
      ∃ (i : Nat) (r : Running World Op (Except Err Reply) LifeCall),
        m = .run i ∧ p.calls[i]? = some r ∧ Steps r.call.user p.shared p'.shared) ∧
    (∀ p', LifeLater h p p' → ∀ c ∈ p.shared.chats, ∃ c' ∈ p'.shared.chats, Evolves c c') ∧
    (∀ adminID, (p.shared.requestedBy adminID).length ≤ maxOutstandingSecretChats) ∧
    (∀ c ∈ p.shared.chats, ∀ c' ∈ p.shared.chats, c.state = .requested → c'.state = .requested →
      c.adminID = c'.adminID → c.randomID = c'.randomID → c.randomID ≠ 0 → c = c') ∧
    ∀ r ∈ p.calls, ∀ a, r.rest = .ret a → Told r.call.user r.past := by
  have hinv : Inv p.shared := (lifecycle_sound h users now).inv hp
  refine ⟨hinv.ids, fun m p' => steps_turn hp, fun p' => evolves_later hp, hinv.cap,
    hinv.random, ?_⟩
  intro r hr a ha
  obtain ⟨i, hi⟩ := mem_iff_getElem?.mp hr
  obtain ⟨-, -, htold⟩ := (lifecycle_sound h users now).returned hp hi ha
  exact htold

def acceptedRequest : List (Crew.Move LifeCall Outside) :=
  .start (.request 1 2 (replicate dhValueLen 7) 5) :: replicate 8 (Crew.Move.run 0) ++
    .start (.accept 2 1 1 (replicate dhValueLen 8) 9) :: replicate 4 (.run 1)

theorem secretChat_lifecycle_accepted :
    ∃ p, LifeReached plainHandlers [1, 2] 0 p ∧ p.shared.chats.map (·.state) = [.active] ∧
      p.shared.notified = [(2, 1), (1, 1)] ∧
      ∀ r ∈ p.calls, ∀ a, r.rest = .ret a → Told r.call.user r.past := by
  obtain ⟨p, hp, hstates, htold⟩ : ∃ p, LifeReached plainHandlers [1, 2] 0 p ∧
      p.shared.chats.map (·.state) = [.active] ∧ p.shared.notified = [(2, 1), (1, 1)] :=
    Crew.exists_play acceptedRequest (by decide +kernel)
  exact ⟨p, hp, hstates, htold, (secretChat_lifecycle hp).2.2.2.2.2⟩

/-- `NOTIFY` fails under a request, which answers all the same. -/
theorem failed_notify_tells_nobody :
    ∃ p, LifeReached plainHandlers [1, 2] 0 p ∧ p.shared.chats.map (·.state) = [.requested] ∧
      p.shared.notified = [] ∧ p.calls.map (·.answer.isSome) = [true] :=
  Crew.exists_play (.env (.notify true) :: acceptedRequest.take 9) (by decide +kernel)

end TelegramServer.Secret
