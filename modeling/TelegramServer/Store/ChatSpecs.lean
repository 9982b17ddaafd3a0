import TelegramServer.Store.FanOutSpecs

/-!
# The chat transactions meet their specifications

Membership changes, pins and the other changes of a chat's row, reactions,
blocks and chat reads.
-/

namespace TelegramServer.Store

open Tx Tx.Table Tx.Locking List
open Message (key kept)

variable {G : Ctx DB Lock} {v w : DB} {copies : List Message} {t : Int × Int}
  {ids : List Int} {afterID maxID target : Int} {a : Act} {Q : Post Bool}
  {c callerID chat chatID l now owner reactor u : Int} {d : DB} {extra : Int → Prop}
  {members : List Int} {o : Write} {p : Participant} {reaction : Option String}

/-- What a call about the rows of a chat, or about a block, leaves. -/
def ChatEffect : Call → DB → Reply → DB → Prop
  | .announceChat now c u title, d, .fannedOut r, w =>
    Announces now [] (createAnnouncement c u title) d r w
  | .createChat now u title ids, d, .chat c, w =>
    c = { id := c.id, title, creatorID := u, date := now } ∧ ∃ members,
      members.Sublist (createMembers u ids) ∧ u ∈ members ∧ w = (Write.insertChat c members).apply d
  | .addChatUser now c u inviter, d, .memberChange r, w => r.changed = !d.isChatMember c u ∧
    match r.announced with
    | none => r.changed = false ∧ w = d
    | some a => r.changed = true ∧ Announces now [.insertChatParticipantIfAbsent
        { chatID := c, userID := u, inviterID := inviter, date := now }, .bumpChatVersion c]
        { chatID := c, fromID := inviter, action := .addUser, actionUserID := u } d a w
  | .removeChatUser now c u remover, d, .memberChange r, w => r.changed = d.isChatMember c u ∧
    match r.announced with
    | none => r.changed = false ∧ w = d
    | some a => r.changed = true ∧ Announces now [.deleteChatParticipant c u, .bumpChatVersion c]
        { chatID := c, fromID := remover, action := .deleteUser, actionUserID := u,
          extra := [u] } d a w
  | .setChatTitle now c u title, d, .titled _ r, w => Announces now [.setChatTitle c title]
      { chatID := c, fromID := u, text := title, action := .editTitle } d r w
  | .setChatRights c _ rights, d, .rights r, w => ∃ chat, d.chatByID c = some chat ∧
    r.isSome = !sameDefaultBannedRights chat.defaultBannedRights rights ∧
    w = if r.isSome then (Write.setChatDefaultBannedRights c rights).apply d else d
  | .setChatAdmin c u _ admin, d, .flag b, w =>
    b = (decide (u ∈ ((d.chatParticipants c).filter (·.admin)).map (·.userID)) != admin) ∧
    w = if b then locking.replay [.setChatParticipantAdmin c u admin, .bumpChatVersion c] d else d
  | .block now u v, d, .flag b, w => b = !d.isBlocked u v ∧
    w = (Write.insertBlockedUser { blockerID := u, blockedID := v, date := now }).apply d
  | .unblock u v, d, .flag b, w =>
    b = d.isBlocked u v ∧ w = (Write.deleteBlockedUser u v).apply d
  | _, _, _, _ => True

/-- A call that answers `f` of what `p` returns does what it has to, and posts no reply. -/
abbrev Makes {A : Type} (t : Call) (f : A → Reply) (p : Body (Finish A)) (d : DB) : Prop :=
  Meets p d fun d r w => Spec t d (f r) w ∧ PostsOnly d w ∧ ChatEffect t d (f r) w

theorem wp_announceChat (now chatID creatorID : Int) (title : String) (hd : Inv d) :
    Makes (.announceChat now chatID creatorID title) .fannedOut
      (sendChatMessage now (createAnnouncement chatID creatorID title)) d := by
  refine wp_bind (wp_fanOut .start hd (fun _ => rfl) fun G' r w _ hspec hrows => ?_)
  rcases hspec.2 with ⟨-, h0, -⟩ | ⟨hdup, -, as, hdid, -, hon, -⟩
  · exact absurd rfl h0
  · exact ⟨⟨as, hdid, hon.imp (by simp [createAnnouncement])⟩, hrows.postsOnly hdup rfl,
      hdup, hrows⟩

theorem wp_beginChatMutation {Q : Post ChatMutation} (ha : ∀ l ∈ G.held, l.tier < 1)
    (h : ∀ chat, w.chatByID chatID = some chat → w.isChatMember chatID callerID →
      Q ⟨chat.creatorID, chat.defaultBannedRights, (w.chatParticipants chatID).map (·.userID),
        ((w.chatParticipants chatID).filter (·.admin)).map (·.userID)⟩
        (G.lock {Lock.chat chatID}) w) :
    locking.wp (beginChatMutation chatID callerID) G w Q := by
  refine wp_bind (wp_query fun v _ => ?_)
  split
  · trivial
  refine wp_lockChat (.inr ha) fun chat hchat => ?_
  refine wp_bind (wp_query_chat (c := chatID) (fun d => d.chatParticipants_ofChat chatID)
    (Or.inr rfl) ?_)
  split
  · trivial
  rename_i hmember
  exact h chat hchat (mem_chatMembers.mp (not_not.mp hmember))

theorem tier_lock_chat :
    ∀ l ∈ ((Ctx.start Inv : Ctx DB Lock).lock {Lock.chat c}).held, l.tier < 2 := by
  rintro l (hl | rfl)
  · simp at hl
  · simp [Lock.tier]

theorem tier_lock_owners (h : ∀ l ∈ G.held, l.tier < 3) :
    ∀ l ∈ (G.lock {l | ∃ u ∈ ids, l = Lock.owner u}).held, l.tier < 3 := by
  rintro l (hl | ⟨u, -, rfl⟩)
  · exact h l hl
  · simp [Lock.tier]

theorem wp_exec_chat {A : Type} {q : DB → A} {Q : Post A}
    (hq : ∀ d : DB, q (d.ofChat c) = q d) (hc : Lock.chat c ∈ G.held)
    (ho : ∀ l ∈ o.guards, l ∈ G.held)
    (h : Q (q w) G.wrote (o.apply w)) : locking.wp (.exec o q : Body A) G w Q :=
  wp_exec (reads_ofChat hq) (by simpa using hc) ho h

theorem Act.onChat_of_adds {d' : DB} (h : a.adds) (ha : a.onChat d c) : a.onChat d' c := by
  cases a with
  | ensure user now => trivial
  | post m unread now => exact ha
  | _ => exact absurd h Bool.false_ne_true

theorem ChatSpec.fanOut {as bs : List Act} {w' : DB} (h : ChatSpec chatID callerID extra as d w)
    (hdid : Did bs w w') (hadds : ∀ a ∈ bs, a.adds) (hon : OnChat chatID extra bs w w') :
    ChatSpec chatID callerID extra (as ++ bs) d w' := by
  refine ⟨h.1.append hdid, h.2.1, fun a ha => ?_⟩
  rcases mem_append.mp ha with ha | ha
  · refine ⟨(h.2.2 a ha).1, fun u hu => ?_⟩
    rw [hdid.eq, isChatMember_of_adds hadds]
    exact (h.2.2 a ha).2 u hu
  · exact ⟨Act.onChat_of_adds (hadds a ha) (hon a ha).1, (hon a ha).2⟩

/-- The writes on a chat's rows that a member's call has made. -/
structure ChatWrites (chatID callerID : Int) (extra : Int → Prop) (os : List Write) (d w : DB) :
    Prop where
  spec : ChatSpec chatID callerID extra (os.map .side) d w
  posts : PostsOnly d w
  eq : w = locking.replay os d

theorem ChatWrites.nil (h : d.isChatMember chatID callerID) :
    ChatWrites chatID callerID extra [] d d :=
  ⟨⟨Did.nil d, h, fun a ha => by simp at ha⟩, .refl d, rfl⟩

theorem ChatWrites.snoc {os : List Write} (h : ChatWrites chatID callerID extra os d w) (o : Write)
    (hchat : o.chat = some chatID) (hok : (Act.side o).Ok w) (hon : (Act.side o).onChat d chatID)
    (hplain : (Act.side o).plain)
    (hsame : ∀ u, w.isChatMember chatID u → (o.apply w).isChatMember chatID u ∨ extra u) :
    ChatWrites chatID callerID extra (os ++ [o]) d (o.apply w) where
  spec := by
    rw [map_append]
    refine ⟨h.spec.1.append (Did.side hok), h.spec.2.1, fun a ha => ?_⟩
    rcases mem_append.mp ha with ha | ha
    · refine ⟨(h.spec.2.2 a ha).1, fun u hu => ?_⟩
      exact ((h.spec.2.2 a ha).2 u hu).elim (hsame u) .inr
    · obtain rfl := mem_singleton.mp ha
      exact ⟨hon, fun u hu => by simp [Act.owner, hchat] at hu⟩
  posts := h.posts.trans (.side hok hplain)
  eq := by rw [h.eq, Rows.replay, Rows.replay, foldl_append]; rfl

/-- The service message about the writes. -/
theorem ChatWrites.wp_fanOut {Q : Post FannedOut} {f : FanOut} {os : List Write}
    (h : ChatWrites f.chatID callerID extra os d w) (hd : Inv d) (hextra : ∀ u ∈ f.extra, extra u)
    (hc : Lock.chat f.chatID ∈ G.held)
    (hmember : ∀ u, w.isChatMember f.chatID u ∨ u ∈ f.extra → Lock.owner u ∈ G.held)
    (hlast : ∀ l ∈ G.held, l.tier < 3)
    (hQ : ∀ G' r w' as, (∀ a ∈ as, a.adds) →
      (∀ x ∈ newRows as, x.action = f.action ∧ x.actionUserID = f.actionUserID) →
      w' = runActs as w → ChatSpec f.chatID callerID extra (os.map .side ++ as) d w' →
      PostsOnly d w' → Announces now os f d r w' → Q r G' w')
    (hrandom : f.randomID = 0 := by rfl) (hreply : f.replyToMsgID = 0 := by rfl) :
    locking.wp (fanOut now f) G w Q := by
  refine Store.wp_fanOut ⟨.inl hc, .inl hmember, fun l hl => Nat.lt_succ_of_lt (hlast l hl)⟩
    (h.spec.1.inv hd) (fun _ => hrandom) fun G' r w' _ hspec hrows => ?_
  rcases hspec.2 with ⟨-, h0, -⟩ | ⟨hdup, -, as, hdid, hadds, hon, hnew, -⟩
  · exact absurd hrandom h0
  · exact hQ G' r w' as hadds hnew hdid.eq (h.spec.fanOut hdid hadds (hon.imp hextra))
      (h.posts.trans (hrows.postsOnly hdup hreply)) ⟨hdup, h.eq ▸ hrows⟩

theorem wp_targetBlocks (hu : Lock.owner target ∈ G.held)
    (h : ∀ b, (target ∉ members → b = w.isBlocked target callerID) → Q b G w) :
    locking.wp (targetBlocks members target callerID) G w Q := by
  unfold targetBlocks
  split
  · exact wp_query_owner (u := target) (fun d => d.isBlocked_ofOwner target callerID) hu
      (h _ fun _ => rfl)
  · exact h false fun hnot => absurd hnot ‹_›

theorem wp_targetBlocks_any (h : ∀ b, Q b G w) :
    locking.wp (targetBlocks members target callerID) G w Q := by
  unfold targetBlocks
  split
  · exact wp_query fun v _ => h _
  · exact h false

theorem insertChatParticipant_of_member (h : w.isChatMember p.chatID p.userID) :
    (Write.insertChatParticipantIfAbsent p).apply w = w := by
  have heq : insertAbsent (Participant.isFor p.chatID p.userID) p w.participants = w.participants :=
    if_pos h
  simp only [Write.apply, heq]

theorem isChatMember_insert (h : w.isChatMember p.chatID u) :
    ((Write.insertChatParticipantIfAbsent p).apply w).isChatMember p.chatID u := by
  simp only [DB.isChatMember, Write.apply, insertAbsent] at h ⊢
  split
  · exact h
  · rw [any_append, h, Bool.true_or]

theorem isChatMember_of_insert
    (h : ((Write.insertChatParticipantIfAbsent p).apply w).isChatMember p.chatID u) :
    w.isChatMember p.chatID u ∨ u = p.userID := by
  simp only [DB.isChatMember, Write.apply, insertAbsent] at h ⊢
  split at h
  · exact .inl h
  · rw [any_append, Bool.or_eq_true] at h
    exact h.imp_right fun h => by simpa [Participant.isFor, eq_comm] using h

theorem wp_addChatUser (now chatID target callerID : Int) (hd : Inv d) :
    Makes (.addChatUser now chatID target callerID) .memberChange
      (addChatUser now chatID target callerID) d := by
  refine wp_bind (wp_beginChatMutation (by simp) fun chat _ hmember => ?_)
  split
  · trivial
  refine wp_bind (wp_targetBlocks_any fun _ => ?_)
  split
  · trivial
  refine wp_bind (wp_lockOwners (.inr tier_lock_chat) ?_)
  set H := ((Ctx.start Inv : Ctx DB Lock).lock {Lock.chat chatID}).lock
    {l | ∃ u ∈ (d.chatParticipants chatID).map (·.userID) ++ [target], l = Lock.owner u} with hH
  have ht : Lock.owner target ∈ H.held := by simp [hH]
  have hc : Lock.chat chatID ∈ H.held := by simp [hH]
  refine wp_bind (wp_targetBlocks ht fun blocked hblocked => ?_)
  split
  · trivial
  rename_i hfree
  split
  · trivial
  refine wp_bind (wp_exec_chat (fun d => d.isChatMember_ofChat chatID target) hc ?_ ?_)
  · simp [Write.guards, Write.owner, Write.chat, Write.fanout, Write.poll, ht, hc]
  have hstart : ChatWrites chatID callerID (fun _ => False) [] d d := .nil hmember
  split
  · rename_i hpresent
    rw [insertChatParticipant_of_member (by exact hpresent)]
    exact ⟨⟨[], hstart.spec, .inl ⟨rfl, rfl⟩⟩, .refl d, by simp [hpresent], rfl, rfl⟩
  rename_i habsent
  have hunblocked : d.isBlocked target callerID = false := by
    rw [← hblocked (by rwa [mem_chatMembers])]
    simpa using hfree
  refine wp_bind (wp_exec_under rfl hc ?_)
  have hadd := hstart.snoc (.insertChatParticipantIfAbsent
    { chatID, userID := target, inviterID := callerID, date := now })
    rfl rfl rfl rfl fun u hu => .inl (isChatMember_insert hu)
  have hbump := hadd.snoc (.bumpChatVersion chatID) rfl rfl rfl rfl fun u hu => .inl hu
  refine wp_bind (hbump.wp_fanOut hd (by simp) hc (fun u hu => ?_)
    (tier_lock_owners fun l hl => Nat.lt_succ_of_lt (tier_lock_chat l hl))
    fun G' r w' as hadds _ heq hspec hposts hrows => ?_)
  · have hu : d.isChatMember chatID u ∨ u = target :=
      isChatMember_of_insert (hu.resolve_right (by simp))
    rw [← mem_chatMembers] at hu
    exact .inr ⟨u, by simpa using hu, rfl⟩
  refine ⟨⟨_, hspec, .inr ⟨hunblocked, ?_⟩⟩, hposts, by simpa using habsent, rfl, hrows⟩
  rw [DB.isBlocked, heq, blocks_of_adds hadds]
  exact hunblocked

theorem deleteChatParticipant_of_absent (h : w.isChatMember c u = false) :
    (Write.deleteChatParticipant c u).apply w = w := by
  have heq : w.participants.filter (fun p => !Participant.isFor c u p) = w.participants := by
    refine filter_eq_self.mpr fun p hp => ?_
    rw [any_eq_false.mp h p hp |> Bool.eq_false_iff.mpr]
    rfl
  simp only [Write.apply, heq]

theorem isChatMember_delete {v : Int} (h : w.isChatMember c v) :
    ((Write.deleteChatParticipant c u).apply w).isChatMember c v ∨ v = u := by
  by_cases hv : v = u
  · exact .inr hv
  · refine .inl ((isChatMember_apply (o := .deleteChatParticipant c u) ?_ w c).1 h)
    simpa [Write.owner] using Ne.symm hv

theorem isChatMember_of_delete {v : Int}
    (h : ((Write.deleteChatParticipant c u).apply w).isChatMember c v) : w.isChatMember c v := by
  obtain ⟨p, hp, hfor⟩ := any_eq_true.mp h
  exact any_eq_true.mpr ⟨p, (mem_filter.mp hp).1, hfor⟩

theorem wp_removeChatUser (now chatID target callerID : Int) (hd : Inv d) :
    Makes (.removeChatUser now chatID target callerID) .memberChange
      (removeChatUser now chatID target callerID) d := by
  refine wp_bind (wp_beginChatMutation (by simp) fun chat _ hmember => ?_)
  split
  · trivial
  refine wp_bind (wp_lockOwners (.inr tier_lock_chat) ?_)
  set H := ((Ctx.start Inv : Ctx DB Lock).lock {Lock.chat chatID}).lock
    {l | ∃ u ∈ (d.chatParticipants chatID).map (·.userID) ++ [target], l = Lock.owner u} with hH
  have ht : Lock.owner target ∈ H.held := by simp [hH]
  have hc : Lock.chat chatID ∈ H.held := by simp [hH]
  refine wp_bind (wp_bind (wp_lockOwners (.inl (by simpa using ht)) ?_))
  refine wp_exec_chat (fun d => d.isChatMember_ofChat chatID target) (.inl hc) ?_ ?_
  · simp [Write.guards, Write.owner, Write.chat, Write.fanout, Write.poll, hc]
  have hstart : ChatWrites chatID callerID (· = target) [] d d := .nil hmember
  split
  · rename_i habsent
    rw [deleteChatParticipant_of_absent (by simpa using habsent)]
    exact ⟨⟨[], hstart.spec, by simp, by simp [newRows]⟩, .refl d, by simpa using habsent, rfl, rfl⟩
  rename_i hpresent
  refine wp_bind (wp_exec_under rfl (.inl hc) ?_)
  have hdel := hstart.snoc (.deleteChatParticipant chatID target) rfl rfl rfl rfl
    fun u hu => isChatMember_delete hu
  have hbump := hdel.snoc (.bumpChatVersion chatID) rfl rfl rfl rfl fun u hu => .inl hu
  refine wp_bind (hbump.wp_fanOut hd (by simp) (.inl hc) (fun u hu => ?_)
    (tier_lock_owners (tier_lock_owners fun l hl => Nat.lt_succ_of_lt (tier_lock_chat l hl)))
    fun G' r w' as hadds hnew _ hspec hposts hrows => ?_)
  · have hu : d.isChatMember chatID u ∨ u = target :=
      hu.imp isChatMember_of_delete fun h => by simpa using h
    rw [← mem_chatMembers] at hu
    exact .inl (.inr ⟨u, by simpa using hu, rfl⟩)
  refine ⟨⟨_, hspec, fun a ha hown => ?_, fun x hx => hnew x ?_⟩, hposts, by simpa using hpresent,
    rfl, hrows⟩
  · rcases mem_append.mp ha with ha | ha
    · obtain ⟨o, ho, rfl⟩ := mem_map.mp ha
      obtain rfl | rfl : o = _ ∨ o = _ := by simpa using ho
      all_goals exact absurd rfl hown
    · exact hadds a ha
  · simpa [newRows, Act.newMessages] using hx

/-! ## The chat's own columns -/

theorem wp_setChatTitle (now chatID callerID : Int) (title : String) (hd : Inv d) :
    Makes (.setChatTitle now chatID callerID title) (fun r => .titled r.1 r.2)
      (setChatTitle now chatID callerID title) d := by
  refine wp_bind (wp_beginChatMutation (by simp) fun chat _ hmember => ?_)
  split
  · trivial
  refine wp_bind (wp_lockOwners (.inr tier_lock_chat) ?_)
  refine wp_bind (wp_exec_under rfl (by simp) ?_)
  have hset := (ChatWrites.nil hmember : ChatWrites chatID callerID (fun _ => False) [] d d).snoc
    (.setChatTitle chatID title) rfl rfl rfl rfl fun u hu => .inl hu
  refine wp_bind (wp_query fun v _ => ?_)
  refine wp_bind (wp_orFail fun chat _ => ?_)
  refine wp_bind (hset.wp_fanOut hd (by simp) (.inl (.inr rfl)) (fun u hu => ?_)
    (tier_lock_owners fun l hl => Nat.lt_succ_of_lt (tier_lock_chat l hl))
    fun G' r w' as _ _ _ hspec hposts hrows => ⟨⟨_, hspec⟩, hposts, hrows⟩)
  have hu : d.isChatMember chatID u := hu.resolve_right (by simp)
  exact .inr ⟨u, mem_chatMembers.mpr hu, rfl⟩

theorem wp_setChatRights (chatID callerID : Int) (rights : List String) (d : DB) :
    Makes (.setChatRights chatID callerID rights) .rights
      (setChatDefaultBannedRights chatID callerID rights) d := by
  refine wp_bind (wp_beginChatMutation (by simp) fun chat hchat hmember => ?_)
  have hstart : ChatWrites chatID callerID (fun _ => False) [] d d := .nil hmember
  split
  · trivial
  split
  · rename_i hsame
    exact ⟨⟨[], hstart.spec⟩, .refl d, chat, hchat, by simp [hsame], rfl⟩
  rename_i hnew
  refine wp_bind (wp_exec_under rfl (by simp) ?_)
  refine wp_bind (wp_query fun v _ => ?_)
  refine wp_bind (wp_orFail fun _ _ => ?_)
  have hset := hstart.snoc (.setChatDefaultBannedRights chatID rights) rfl rfl rfl rfl
    fun u hu => .inl hu
  exact ⟨⟨_, hset.spec⟩, hset.posts, chat, hchat, by simp [hnew], rfl⟩

theorem isChatMember_setAdmin {t : Int} {admin : Bool} :
    ((Write.setChatParticipantAdmin c t admin).apply w).isChatMember c u = w.isChatMember c u := by
  simp only [Write.apply, DB.isChatMember, updateWhere, any_map]
  congr 1
  funext p
  simp only [Function.comp_apply]
  split <;> rfl

theorem wp_setChatAdmin (chatID targetID callerID : Int) (admin : Bool) (d : DB) :
    Makes (.setChatAdmin chatID targetID callerID admin) .flag
      (setChatAdmin chatID targetID callerID admin) d := by
  refine wp_bind (wp_beginChatMutation (by simp) fun chat _ hmember => ?_)
  have hstart : ChatWrites chatID callerID (fun _ => False) [] d d := .nil hmember
  split
  · trivial
  split
  · trivial
  split
  · trivial
  split
  · rename_i hsame
    exact ⟨⟨[], hstart.spec⟩, .refl d, by simp [← hsame], rfl⟩
  rename_i hnew
  refine wp_bind (wp_exec_under rfl (by simp) ?_)
  refine wp_bind (wp_exec_under rfl (by simp) ?_)
  have hadmin := hstart.snoc (.setChatParticipantAdmin chatID targetID admin) rfl rfl rfl rfl
    fun u hu => .inl (by rw [isChatMember_setAdmin]; exact hu)
  have hbump := hadmin.snoc (.bumpChatVersion chatID) rfl rfl rfl rfl fun u hu => .inl hu
  exact ⟨⟨_, hbump.spec⟩, hbump.posts, by simpa using hnew, rfl⟩

theorem wp_pinValid {pinned : Option Int} (hu : Lock.owner callerID ∈ G.held)
    (h : ∀ b, (b = true → ∀ id, pinned = some id → ∃ m ∈ w.messages, Message.isAt callerID id m ∧
      m.deleted = false ∧ m.peerType = .chat ∧ m.peerID = chatID) → Q b G w) :
    locking.wp (pinValid chatID callerID pinned) G w Q := by
  cases pinned with
  | none => exact h true fun _ id hid => by cases hid
  | some id =>
    refine wp_bind (wp_messageOrFail hu fun msg hmsg => ?_)
    refine h _ fun hvalid id' hid => ?_
    cases hid
    obtain ⟨hmem, howner, hlocal⟩ := DB.messageByOwnerLocal_some hmsg
    simp only [Bool.not_eq_true', Bool.or_eq_false_iff, decide_eq_false_iff_not, not_not] at hvalid
    exact ⟨msg, hmem, Message.isAt_iff.mpr ⟨howner, hlocal⟩, hvalid.1.1, hvalid.1.2, hvalid.2⟩

theorem wp_setChatPin (chatID callerID : Int) (pinned : Option Int) (d : DB) :
    Makes (.setChatPin chatID callerID pinned) (fun r => .pinned r.1 r.2)
      (setChatPinnedMessage chatID callerID pinned) d := by
  refine wp_bind (wp_beginChatMutation (by simp) fun chat _ hmember => ?_)
  refine wp_bind (wp_lockOwners (.inr tier_lock_chat) ?_)
  have hheld := mem_chatMembers.mpr hmember
  refine wp_bind (wp_pinValid (.inr ⟨callerID, hheld, rfl⟩) fun valid hvalid => ?_)
  split
  · trivial
  rename_i htrue
  refine wp_bind (wp_exec_under rfl (by simp) ?_)
  refine wp_bind (wp_query fun v _ => ?_)
  refine wp_bind (wp_orFail fun chat _ => ?_)
  exact ⟨⟨hmember, hvalid (by simpa using htrue), Did.side rfl⟩, .side rfl rfl, trivial⟩

theorem wp_checkChatWrite (chatID callerID randomID : Int) (mediaRights : Option (List String))
    (d : DB) :
    Meets (checkChatWritePermission chatID callerID randomID mediaRights) d fun d _ w =>
        (∃ as, ChatSpec chatID callerID (fun _ => False) as d w) ∧ w = d := by
  refine wp_bind (wp_beginChatMutation (by simp) fun chat _ hmember => ?_)
  have hspec : ∃ as, ChatSpec chatID callerID (fun _ => False) as d d :=
    ⟨[], (ChatWrites.nil hmember).spec⟩
  have hdedup : ∀ {G : Ctx DB Lock} {Q : Post (Option Message)},
      (∀ m, Q m G d) → locking.wp (dedupRow callerID randomID) G d Q := by
    intro G Q hQ
    unfold dedupRow
    split
    · exact wp_query fun v _ => hQ _
    · exact hQ none
  refine wp_bind (hdedup fun existing => ?_)
  split
  · exact ⟨hspec, rfl⟩
  · exact wp_bind (wp_checkDefaultMessageRestriction ⟨hspec, rfl⟩)

theorem nodup_eraseDups {α : Type} [BEq α] [LawfulBEq α] (l : List α) : l.eraseDups.Nodup := by
  induction hn : l.length using Nat.strong_induction_on generalizing l with
  | _ n ih =>
    cases l with
    | nil => simp
    | cons a as =>
      rw [eraseDups_cons, nodup_cons]
      refine ⟨by simp, ih _ ?_ _ rfl⟩
      have := length_filter_le (fun b => !b == a) as
      simp only [length_cons] at hn
      omega

variable {Q : Post (List Int)}

theorem wp_unblockedMembers {creatorID : Int}
    (h : ∀ ms, ms.Sublist ids → (creatorID ∈ ids → creatorID ∈ ms) → Q ms G w) :
    locking.wp (unblockedMembers creatorID ids) G w Q := by
  induction ids generalizing Q with
  | nil => exact h [] (List.Sublist.refl _) id
  | cons id ids ih =>
    have hrest : ∀ blocked : Bool, (blocked = true → id ≠ creatorID) → locking.wp (do
        let rest ← unblockedMembers creatorID ids
        pure (if blocked then rest else id :: rest)) G w Q := by
      intro blocked hne
      refine wp_bind (ih fun ms hms hin => ?_)
      cases blocked with
      | true => exact h _ (hms.cons id) fun h => hin ((mem_cons.mp h).resolve_left (hne rfl).symm)
      | false => exact h _ (hms.cons_cons id) fun h => mem_cons.mpr ((mem_cons.mp h).imp_right hin)
    refine wp_bind ?_
    unfold inviteeBlocks
    split
    · exact wp_query fun v _ => hrest _ fun _ => ‹_›
    · exact hrest false (by simp)

theorem wp_createChat (now creatorID : Int) (title : String) (memberIDs : List Int) (d : DB) :
    Makes (.createChat now creatorID title memberIDs) .chat
      (createChat now creatorID title memberIDs) d := by
  unfold createChat
  split
  · trivial
  refine wp_bind (wp_unblockedMembers fun members hsub hcreator => ?_)
  refine wp_bind (wp_nextval fun n hn hunused => ?_)
  refine wp_bind (wp_exec_under rfl (by simp [locking, Seq.drawn]) ?_)
  have hfresh : ∀ p ∈ d.participants, p.chatID ≠ n := by
    have hnil : d.participants.filter (·.chatID = n) = [] :=
      congrArg DB.participants (show d.ofChat n = {} from hunused)
    exact fun p hp => by simpa using filter_eq_nil_iff.mp hnil p hp
  have hok : (Act.side (.insertChat { id := n, title, creatorID, date := now } members)).Ok d :=
    ⟨(nodup_eraseDups _).sublist hsub, hfresh⟩
  refine ⟨⟨[.side (.insertChat { id := n, title, creatorID, date := now } members)], Did.side hok,
    fun a ha => ?_⟩, .side hok rfl, rfl, members, hsub, hcreator (by simp [createMembers]), rfl⟩
  obtain rfl := mem_singleton.mp ha
  exact ⟨⟨rfl, rfl⟩, fun u hu => by simp [Act.owner, Write.chat] at hu⟩

/-! ## Reactions -/

theorem reactionWrite_cases (u l reactor : Int) (reaction : Option String) :
    (reactionWrite u l reactor reaction).isSide ∧
      (reactionWrite u l reactor reaction).guards = [.owner u] ∧
      (reactionWrite u l reactor reaction).owner = some u ∧
      (reactionWrite u l reactor reaction).chat = none := by
  cases reaction <;> exact ⟨rfl, rfl, rfl, rfl⟩

theorem did_reaction (u l reactor : Int) (reaction : Option String) (w : DB) :
    Did [.side (reactionWrite u l reactor reaction)] w
      ((reactionWrite u l reactor reaction).apply w) :=
  Did.side (by cases reaction <;> rfl)

theorem onChat_reaction (h : d.chatRow c u l) :
    (Act.side (reactionWrite u l reactor reaction)).onChat d c := by
  cases reaction <;> exact h

theorem offChat_reaction (h : ∀ c, ¬ d.chatRow c u l) :
    (Act.side (reactionWrite u l reactor reaction)).offChat d := by
  cases reaction <;> exact h

theorem wp_reaction {Q : Post Unit} (hu : Lock.owner u ∈ G.held)
    (h : Q () G.wrote ((reactionWrite u l reactor reaction).apply w)) :
    locking.wp (.exec_ (reactionWrite u l reactor reaction) : Body Unit) G w Q :=
  wp_exec_under (reactionWrite_cases u l reactor reaction).2.1 hu h

def reactActs (reactor : Int) (reaction : Option String) (members : List Int)
    (copies : List Message) : List Act :=
  (copies.filter (·.ownerID ∈ members)).map fun c =>
    .side (reactionWrite c.ownerID c.localID reactor reaction)

theorem reactActs_eq (reactor : Int) (reaction : Option String) (members : List Int)
    (copies : List Message) : reactActs reactor reaction members copies =
      reactKeys reactor reaction ((copies.filter (·.ownerID ∈ members)).map key) := by
  rw [reactKeys, map_map]
  rfl

theorem wp_reactCopies {Q : Post Owned} (hlock : ∀ c ∈ copies, Lock.owner c.ownerID ∈ G.held)
    (h : ∀ G', Did (reactActs reactor reaction members copies) w
      (runActs (reactActs reactor reaction members copies) w) →
      Q ((copies.filter (·.ownerID ∈ members)).map key) G'
        (runActs (reactActs reactor reaction members copies) w)) :
    locking.wp (reactCopies reactor reaction members copies) G w Q := by
  induction copies generalizing G w Q with
  | nil => exact h G (Did.nil w)
  | cons c cs ih =>
    unfold reactCopies
    split
    · rename_i hc
      have hacts : reactActs reactor reaction members (c :: cs) =
          [Act.side (reactionWrite c.ownerID c.localID reactor reaction)] ++
            reactActs reactor reaction members cs := by
        simp [reactActs, hc]
      rw [hacts, filter_cons_of_pos (by simpa using hc), map_cons] at h
      refine wp_bind (wp_reaction (hlock c (by simp)) ?_)
      refine wp_bind (ih (fun c' hc' => hlock c' (by simp [hc'])) fun G' hdid => ?_)
      exact h G' ((did_reaction ..).append hdid)
    · rename_i hc
      have hacts : reactActs reactor reaction members (c :: cs) =
          reactActs reactor reaction members cs := by
        simp [reactActs, hc]
      rw [hacts, filter_cons_of_neg (by simpa using hc)] at h
      exact ih (fun c' hc' => hlock c' (by simp [hc'])) h

theorem mem_reactActs (ha : a ∈ reactActs reactor reaction members copies) :
    ∃ c ∈ copies, c.ownerID ∈ members ∧
      a = .side (reactionWrite c.ownerID c.localID reactor reaction) := by
  obtain ⟨c, hc, rfl⟩ := mem_map.mp ha
  obtain ⟨hc, hin⟩ := mem_filter.mp hc
  exact ⟨c, hc, by simpa using hin, rfl⟩

theorem wp_chatReaction {pre : Message} (hd : Inv d) (hfirst : ∀ l ∈ G.held, l.tier < 2)
    (hG : ∀ x, G.seen x → Inv x ∧ ∃ m ∈ x.messages, m.frozen = pre.frozen)
    (hpre : ∃ m ∈ d.messages, m.frozen = pre.frozen) (hchat : pre.peerType = .chat) :
    locking.wp (chatReaction pre.ownerID pre reaction) G d
      fun affected _ w => (∃ as, RowSpec pre.ownerID pre.localID as d w) ∧
        ReactSpec pre.ownerID pre.localID reaction d affected w := by
  refine wp_bind (wp_chatCopies hG fun copies hcopies => ?_)
  obtain ⟨own, hown, hou, -⟩ := hcopies.own
  refine wp_lockRow hd hfirst hpre (fun H msg hseen hheld hm hf => ?_) (hou ▸ mem_map_of_mem hown)
  have hlock : ∀ c ∈ copies, Lock.owner c.ownerID ∈ H.held :=
    fun c hc => hheld _ (mem_map_of_mem hc)
  have hself : Lock.owner pre.ownerID ∈ H.held := hou ▸ hlock own hown
  split
  · trivial
  rename_i hlive
  refine wp_bind (wp_chatMembers_locked (fun x hx => hasChat_of_row (hG x (hseen ▸ hx)) hchat)
    fun members hmem => ?_)
  split
  · trivial
  rename_i hmember
  have hmember : pre.ownerID ∈ members := not_not.mp hmember
  refine wp_bind (wp_reactCopies hlock fun G' hdid => ?_)
  split
  · trivial
  have hquiet : newRows (reactActs pre.ownerID reaction members copies) = [] :=
    newRows_eq_nil fun a ha => by
      obtain ⟨c, -, -, rfl⟩ := mem_reactActs ha
      rfl
  have hin := (hmem _ hself).mp hmember
  refine ⟨⟨_, .of_copies hpre hchat hcopies.toCopiesOf hin
    (fun c hc hin => (hmem _ (hlock c hc)).mp hin) hdid hquiet (fun a ha o ho => ?_)
    fun a ha => ?_⟩, ?_⟩
  · obtain ⟨c, -, -, rfl⟩ := mem_reactActs ha
    cases ho
    exact (reactionWrite_cases ..).2.2.2
  · obtain ⟨c, hc, hin, rfl⟩ := mem_reactActs ha
    obtain ⟨-, -, hown, hnone⟩ := reactionWrite_cases c.ownerID c.localID pre.ownerID reaction
    exact ⟨c, hc, hin, by rw [Act.owner, hnone, if_pos rfl, hown], onChat_reaction⟩
  · exact ⟨msg, hm, (kept hf).isAt, by simpa using hlive,
      hcopies.reach hd hm hf hchat hin fun c hc => hmem _ (hlock c hc), reactActs_eq .. ▸ hdid⟩

theorem wp_react (owner localID : Int) (reaction : Option String) (hd : Inv d) :
    Meets (react owner localID reaction) d fun d affected w =>
      (∃ as, RowSpec owner localID as d w) ∧ ReactSpec owner localID reaction d affected w := by
  refine wp_bind (wp_messageOrFail_saw fun v pre hv hpre => ?_)
  obtain ⟨hmem, rfl, rfl⟩ := DB.messageByOwnerLocal_some hpre
  have hrow := (show Grows v d from hv.grows).row hmem
  split
  · trivial
  split
  · exact wp_bind (wp_mono (wp_chatReaction hd (by simp) (fun x hx => saw_row hmem hx)
      hrow ‹_›) fun _ _ _ _ hspec => hspec)
  rename_i htype
  refine wp_lockRow hd (by simp) hrow (fun H cur _ hheld hm hf => ?_) mem_cons_self
  have hkept := kept hf
  have hmtype : cur.peerType ≠ .chat := hkept.peerType.trans_ne htype
  split
  · trivial
  rename_i hlive
  -- Reactions leave the logs alone.
  have hspec : ∀ keys w, Reach d cur keys → Did (reactKeys pre.ownerID reaction keys) d w →
      (∃ as, RowSpec pre.ownerID pre.localID as d w) ∧
        ReactSpec pre.ownerID pre.localID reaction d keys w := by
    intro keys w hreach hdid
    refine ⟨⟨reactKeys pre.ownerID reaction keys, ?_⟩, cur, hm, hkept.isAt,
      by simpa using hlive, hreach, hdid⟩
    rw [← hkept.localID]
    have hrows : RowSpec cur.ownerID cur.localID (reactKeys pre.ownerID reaction keys) d w := by
      refine .of_reach hd hm hmtype hreach hdid (newRows_eq_nil fun a ha => ?_) fun a ha => ?_
      · obtain ⟨k, -, rfl⟩ := mem_map.mp ha
        rfl
      · obtain ⟨k, hk, rfl⟩ := mem_map.mp ha
        exact ⟨k, hk, (fun _ hu => nomatch hu), offChat_reaction⟩
    rw [hkept.ownerID] at hrows
    exact hrows
  refine wp_bind (wp_reaction (hheld _ (by simp)) ?_)
  have hone := did_reaction pre.ownerID pre.localID pre.ownerID reaction d
  split
  · rename_i hself
    have hreach := reach_self hm hmtype (by rw [hkept.ownerID, hkept.peerID]; exact hself)
    rw [hkept.ownerID, hkept.localID] at hreach
    exact hspec _ _ hreach hone
  · rename_i hne
    refine wp_bind (wp_reaction (hheld _ (by simp)) ?_)
    have hreach := hd.reach_pair hm hmtype (by rw [hkept.ownerID, hkept.peerID]; exact hne)
    rw [hkept.ownerID, hkept.localID, hkept.peerID] at hreach
    exact hspec _ _ hreach (hone.append (did_reaction ..))

theorem wp_block {q : DB → Bool} {f : Bool → Bool} {blocker blocked : Int}
    (hq : ∀ d : DB, q (d.ofOwner blocker) = q d) (ho : o.guards = [.owner blocker])
    (hside : (Act.side o).Ok w) (hoff : (Act.side o).offChat w) (hplain : (Act.side o).plain) :
    Meets (do
      lockOwners [blocker, blocked]
      let a ← .exec o q
      pure (.commit (f a))) w fun d b w => (∃ as, Did as d w ∧ OffChat as d) ∧ PostsOnly d w ∧
        b = f (q d) ∧ w = o.apply d := by
  refine wp_bind (wp_lockOwners (.inr (by simp)) ?_)
  set H := (Ctx.start Inv : Ctx DB Lock).lock
    {l | ∃ u ∈ [blocker, blocked], l = Lock.owner u} with hH
  have hb : Lock.owner blocker ∈ H.held := by simp [hH]
  refine wp_bind (wp_exec_owner (u := blocker) hq hb ho ?_)
  exact ⟨⟨_, Did.side hside, fun a ha => mem_singleton.mp ha ▸ hoff⟩, .side hside hplain, rfl, rfl⟩

theorem wp_blockUser (now blockerID blockedID : Int) (d : DB) :
    Makes (.block now blockerID blockedID) .flag (blockUser now blockerID blockedID) d := by
  unfold blockUser
  split
  · trivial
  · exact wp_block (f := (!·)) (fun d => d.isBlocked_ofOwner blockerID blockedID) rfl rfl
      trivial rfl

theorem wp_unblockUser (blockerID blockedID : Int) (d : DB) :
    Makes (.unblock blockerID blockedID) .flag (unblockUser blockerID blockedID) d := by
  unfold unblockUser
  split
  · trivial
  · exact wp_block (f := id) (fun d => d.isBlocked_ofOwner blockerID blockedID) rfl rfl trivial rfl

/-! ## Chat reads -/

theorem DB.dialogCount_ofOwner (d : DB) (u : Int) (pt : PeerType) (peer : Int) :
    ((d.ofOwner u).dialogs.filter (Dialog.isFor u pt peer)).length =
      (d.dialogs.filter (Dialog.isFor u pt peer)).length := by
  simp only [DB.ofOwner, filter_filter]
  congr 2
  funext g
  by_cases h : g.ownerID = u <;> simp [Dialog.isFor, h]

theorem dialog_receiptActs (hne : t.1 ≠ u) (d : DB) :
    (runActs (receiptActs now chat t) d).dialog u .chat chat = d.dialog u .chat chat := by
  have hside : (Act.side (.advanceReadOutbox t.1 .chat chat t.2)).owner ≠ some u := by
    simpa [Act.owner, Write.chat, Write.owner] using hne
  have hmark : (Act.mark t.1 .readOut t.2 now).owner ≠ some u := by simpa [Act.owner] using hne
  rw [← DB.dialog_ofOwner, receiptActs, runActs_cons, runActs_cons, runActs_nil,
    ofOwner_act_of_ne hmark, ofOwner_act_of_ne hside, DB.dialog_ofOwner]

theorem wp_readReceipts {targets : Owned}
    (hlock : ∀ t ∈ targets, Lock.owner t.1 ∈ G.held) (hnodup : (targets.map Prod.fst).Nodup)
    (hsame : ∀ t ∈ targets, (w.dialog t.1 .chat chat).map (·.readOutboxMaxID) =
      (d.dialog t.1 .chat chat).map (·.readOutboxMaxID))
    (h : ∀ G' receipts w', receipts = targets.filter (fun t => d.chatOutbox t.1 chat < t.2) →
      (∀ t ∈ receipts, (d.dialog t.1 .chat chat).isSome) →
      Did (receipts.flatMap (receiptActs now chat)) w w' → Q (receipts.map Prod.fst) G' w') :
    locking.wp (readReceipts now chat targets) G w Q := by
  induction targets generalizing G w Q with
  | nil => exact h G [] w rfl (by simp) (Did.nil w)
  | cons t ts ih =>
    obtain ⟨sender, maxID⟩ := t
    have hs : Lock.owner sender ∈ G.held := hlock (sender, maxID) (by simp)
    obtain ⟨hfresh, hnodup⟩ := nodup_cons.mp hnodup
    refine wp_bind (wp_query_owner (u := sender)
      (fun d => d.dialog_ofOwner sender .chat chat) hs ?_)
    refine wp_bind (wp_orFail fun g hg => ?_)
    have hmarker := hsame (sender, maxID) (by simp)
    rw [hg, Option.map_some] at hmarker
    have hsome : (d.dialog sender .chat chat).isSome := by
      rw [← Option.isSome_map (f := (·.readOutboxMaxID)), ← hmarker]
      rfl
    have hout : d.chatOutbox sender chat = g.readOutboxMaxID := by
      rw [DB.chatOutbox, ← hmarker]; rfl
    split
    · rename_i hold
      refine ih (fun t ht => hlock t (by simp [ht])) hnodup (fun t ht => hsame t (by simp [ht]))
        fun G' receipts w' hr => h G' receipts w' ?_
      rw [hr, filter_cons_of_neg (by simpa [hout] using hold)]
    rename_i hnew
    refine wp_bind (wp_exec_owner (u := sender)
      (fun d => d.dialogCount_ofOwner sender .chat chat) hs rfl ?_)
    split
    · trivial
    refine wp_mark hs fun hst => ?_
    have hdid := (Did.side (o := .advanceReadOutbox sender .chat chat maxID) (w := w) rfl).append
      (Did.mark hst (.inr rfl) : Did [.mark sender .readOut maxID now] _ _)
    refine wp_bind (ih (fun t ht => hlock t (by simp [ht])) hnodup (fun t ht => ?_)
      fun G' receipts w' hr hsenders hrest => ?_)
    · have hne : sender ≠ t.1 := by
        intro heq
        have hmem : t.1 ∈ ts.map Prod.fst := mem_map_of_mem ht
        exact hfresh (by rw [heq]; exact hmem)
      have heq : (runActs (receiptActs now chat (sender, maxID)) w).dialog t.1 .chat chat =
          w.dialog t.1 .chat chat := dialog_receiptActs hne w
      rw [← hsame t (by simp [ht])]
      exact congrArg _ heq
    · refine h G' ((sender, maxID) :: receipts) w' ?_ ?_ (hdid.append hrest)
      · rw [hr, filter_cons_of_pos (by simpa [hout] using hnew)]
      · intro t ht
        rcases mem_cons.mp ht with rfl | ht
        · exact hsome
        · exact hsenders t ht

theorem mem_chatReadReceiptTargets
    (ht : t ∈ d.chatReadReceiptTargets owner chat afterID maxID members) : t.1 ∈ members := by
  simp only [DB.chatReadReceiptTargets, mem_filterMap, mem_ascendingUnique, mem_map,
    mem_filter, decide_eq_true_eq] at ht
  obtain ⟨u, ⟨m, ⟨-, hm⟩, rfl⟩, hsome⟩ := ht
  split at hsome
  · cases hsome
  · cases hsome
    exact hm.2.2.2.2.2.2.2.2

theorem nodup_chatReadReceiptTargets (d : DB) (owner chat afterID maxID : Int)
    (members : List Int) :
    ((d.chatReadReceiptTargets owner chat afterID maxID members).map Prod.fst).Nodup := by
  simp only [DB.chatReadReceiptTargets, map_filterMap]
  refine List.Nodup.filterMap (fun a a' b hb hb' => ?_) (List.Pairwise.imp (fun h => ne_of_lt h)
    (ascendingUnique_pairwise _))
  obtain ⟨x, hx, rfl⟩ := Option.map_eq_some_iff.mp hb
  obtain ⟨x', hx', heq⟩ := Option.map_eq_some_iff.mp hb'
  split at hx
  · cases hx
  · split at hx'
    · cases hx'
    · cases hx
      cases hx'
      exact heq.symm

/-- The receipts are told by the copies of the reader and of the members. -/
theorem chatReadReceiptTargets_congr
    (ho : v.ofOwner owner = w.ofOwner owner) (hm : ∀ u ∈ members, v.ofOwner u = w.ofOwner u) :
    v.chatReadReceiptTargets owner chat afterID maxID members =
      w.chatReadReceiptTargets owner chat afterID maxID members := by
  have hrows : ∀ {u : Int} {q : Message → Bool}, v.ofOwner u = w.ofOwner u →
      (∀ m, q m = true → m.ownerID = u) → v.messages.filter q = w.messages.filter q := by
    intro u q heq hq
    have hpart : ∀ d : DB, d.messages.filter q = (d.ofOwner u).messages.filter q := by
      intro d
      simp only [DB.ofOwner, filter_filter]
      congr 1
      funext m
      cases hm : q m with
      | false => rfl
      | true => simp [hq m hm]
    rw [hpart, heq, ← hpart]
  simp only [DB.chatReadReceiptTargets]
  rw [hrows ho fun m hm => (of_decide_eq_true hm).1]
  refine filterMap_congr fun sender hsender => ?_
  have hmember : sender ∈ members := by
    obtain ⟨m, hm, rfl⟩ := mem_map.mp (mem_ascendingUnique.mp hsender)
    exact (of_decide_eq_true (mem_filter.mp hm).2).2.2.2.2.2.2.2.2
  rw [hrows (hm sender hmember) fun m hm => (of_decide_eq_true hm).1]

def ChatReadEffect (now owner chat bound : Int) (d : DB) (r : Option ChatReadHistoryResult)
    (w : DB) :
    Prop :=
  ∀ res, r = some res → w = d ∧ res.pts = d.ptsOf owner ∧ res.ptsCount = 0 ∨
    ∃ g members, ChatReads now owner chat bound d g members w ∧ res.pts = d.ptsOf owner + 1 ∧
      res.ptsCount = 1

theorem wp_advanceChatReadHistory {bound : Int}
    {Q : Post ChatReadHistoryResult} (ho : Lock.owner owner ∈ G.held)
    (hlock : ∀ u ∈ members, Lock.owner u ∈ G.held)
    (hcopy : bound = 0 ∨ w.hasChatCopy owner chat bound)
    (h : ∀ r G' w', ChatReadSpec now owner chat bound w (some r) w' →
      ChatReadEffect now owner chat bound w (some r) w' → Q r G' w') :
    locking.wp (advanceChatReadHistory now owner chat bound members) G w Q := by
  refine wp_bind (wp_query_owner (u := owner) (fun d => d.dialog_ofOwner owner .chat chat) ho ?_)
  split
  · refine wp_bind (wp_getState ho (h _ G w (.inl ⟨rfl, rfl⟩) ?_))
    rintro _ ⟨⟩
    exact .inl ⟨rfl, rfl, rfl⟩
  rename_i g hg
  obtain ⟨hdialog, hmoves⟩ := Option.filter_eq_some_iff.mp hg
  refine wp_bind (wp_query fun v hv => ?_)
  have howner : OwnerStable owner v w := hv.stable _ (.inl ho)
  have hmembers : ∀ u ∈ members, OwnerStable u v w := fun u hu => hv.stable _ (.inl (hlock u hu))
  have htargets : v.chatReadReceiptTargets owner chat g.readInboxMaxID bound members =
      w.chatReadReceiptTargets owner chat g.readInboxMaxID bound members :=
    chatReadReceiptTargets_congr howner.rows fun u hu => (hmembers u hu).rows
  rw [htargets]
  refine wp_bind (wp_exec_owner (u := owner) (fun d => by rw [d.dialog_ofOwner]) ho rfl ?_)
  rw [hdialog]
  refine wp_bind (wp_orFail fun marker hmarker => wp_mark ho fun hs => ?_)
  obtain rfl : max g.readInboxMaxID bound = marker := by simpa using hmarker
  have hdid := (Did.side (o := .advanceChatReadInbox owner .chat chat bound) (w := w) rfl).append
    (Did.mark hs (.inl rfl) : Did [.mark owner .readIn (max g.readInboxMaxID bound) now] _ _)
  refine wp_bind (wp_readReceipts (d := w)
    (fun t ht => hlock _ (mem_chatReadReceiptTargets ht)) (nodup_chatReadReceiptTargets _ _ _ _ _ _)
    (fun t ht => ?_) fun G' receipts w' hr hsenders hrest => ?_)
  · change (List.find? _ (updateWhere _ _ w.dialogs)).map _ = (List.find? _ w.dialogs).map _
    have hkey : ∀ x, Dialog.isFor owner .chat chat x →
        Dialog.isFor t.1 .chat chat (x.readInbox w bound) = Dialog.isFor t.1 .chat chat x :=
      fun _ _ => rfl
    rw [find?_updateWhere_of hkey, Option.map_map]
    congr 1
    funext x
    dsimp only [Function.comp_apply]
    split <;> rfl
  · have hreads : ChatReads now owner chat bound w g members w' := by
      refine ⟨hdialog, by simpa using hmoves, hcopy, ?_, ?_⟩
      · rw [DB.chatReceipts, ← hr]
        exact hsenders
      · rw [DB.chatReceipts, ← hr]
        exact hdid.append hrest
    refine h _ G' w' (.inr ⟨g, members, hreads, ?_⟩) ?_
    · rw [DB.chatReceipts, ← hr]
      rfl
    · rintro _ ⟨⟩
      exact .inr ⟨g, members, hreads, rfl, rfl⟩

theorem wp_readChatHistoryAttempt (now owner chat bound : Int) (memberIDs : List Int)
    (hG : G.held = ∅) (hcopy : bound = 0 ∨ d.hasChatCopy owner chat bound) :
    locking.wp (readChatHistoryAttempt now owner chat bound memberIDs) G d
      fun r _ w => Ends (fun d r w => ChatReadSpec now owner chat bound d r w ∧
        ChatReadEffect now owner chat bound d r w) d r w := by
  refine wp_bind (wp_lockOwners (.inr (by simp [hG])) ?_)
  refine wp_bind (wp_query fun v _ => ?_)
  split
  · trivial
  split
  · exact ⟨.inl ⟨rfl, rfl⟩, (fun _ hr => nomatch hr)⟩
  rename_i hlocked
  split
  · trivial
  rename_i hmember
  -- Every member read under the locks was locked.
  have hlock : ∀ u ∈ (v.chatParticipants chat).map (·.userID), u ∈ memberIDs := by
    intro u hu
    by_contra hnot
    exact hlocked (any_eq_true.mpr ⟨u, hu, by simpa using hnot⟩)
  refine wp_bind (wp_advanceChatReadHistory ?_ (fun u hu => ?_) hcopy
    fun r G' w hspec heffect => ?_)
  · exact Or.inr ⟨owner, hlock _ (not_not.mp hmember), rfl⟩
  · exact Or.inr ⟨u, hlock u hu, rfl⟩
  · exact ⟨hspec, heffect⟩

theorem Grows.hasChatCopy (h : Grows v d) {localID : Int} (hv : v.hasChatCopy owner chat localID) :
    d.hasChatCopy owner chat localID := by
  obtain ⟨m, hm, hat⟩ := any_eq_true.mp hv
  obtain ⟨x, hx, hf⟩ := h.row hm
  rw [decide_eq_true_eq] at hat
  refine any_eq_true.mpr ⟨x, hx, decide_eq_true ⟨?_, ?_, ?_, ?_⟩⟩
  · exact (kept hf).ownerID.trans hat.1
  · exact (kept hf).peerType.trans hat.2.1
  · exact (kept hf).peerID.trans hat.2.2.1
  · exact (kept hf).localID.trans hat.2.2.2

theorem wp_readChatHistory (now owner chat bound : Int) (memberIDs : List Int) (d : DB) :
    Meets (readChatHistory now owner chat bound memberIDs) d fun d r w =>
      ChatReadSpec now owner chat bound d r w ∧ ChatReadEffect now owner chat bound d r w := by
  refine wp_bind (wp_query fun v hv => ?_)
  split
  · trivial
  · rename_i hfound
    have hgrows : Grows v d := hv.grows
    refine wp_readChatHistoryAttempt now owner chat bound memberIDs rfl ?_
    rw [Bool.not_eq_true', Bool.not_eq_false, Bool.or_eq_true, decide_eq_true_eq] at hfound
    exact hfound.imp_right hgrows.hasChatCopy

end TelegramServer.Store
