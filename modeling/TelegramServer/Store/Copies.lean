import TelegramServer.Store.Runs

/-!
# The copies of a message agree

A message is stored once for each owner. Every call either posts whole messages, with one
text for all copies, or changes the rows that carry one message alike; so the mirrors of a 1:1
message, and the copies of the members who stayed in a chat, keep the same text and the same
reactions.
-/

namespace TelegramServer.Store

open Tx Tx.Table List
open Message (key kept key_eq_iff isAt_iff)

variable {keys states : Owned} {files : List File} {c : StoreConfig}
  {r : StoreRecord} {d w : DB} {a : Reply} {t : Call} {as : List Act}
  {l now owner reactor u : Int} {m x y : Message} {q : Reaction} {reaction : Option String}

inductive Change (d w : DB) : Prop where
  | posted (as : List Act) (did : Did as d w) (posts : Posts as d)
  | edited (now : Int) (text : String) (m : Message) (keys : Owned) (mem : m ∈ d.messages)
      (reach : Reach d m keys) (did : Did (editKeys now text keys) d w)
  | reacted (reactor : Int) (reaction : Option String) (m : Message) (keys : Owned)
      (mem : m ∈ d.messages) (reach : Reach d m keys)
      (did : Did (reactKeys reactor reaction keys) d w)

theorem Change.refl (d : DB) : Change d d := .posted [] (.nil d) (.nil d)

theorem PostsOnly.change (h : PostsOnly d w) : Change d w := by
  obtain ⟨as, hdid, hposts, -⟩ := h
  exact .posted as hdid hposts

theorem SendRows.posts {p : SendParams} {s : Sent} (h : SendRows now p d s w)
    (hdup : s.dup = false) : ∃ as, Did as d w ∧ Posts as d := by
  obtain ⟨as, l, k, hdid, hadds, hmsg, hnew⟩ := h hdup
  refine ⟨as, hdid, .of_user (fun a ha => Act.plain_of_adds (hadds a ha)) fun x hx => ?_⟩
  rw [hnew, hmsg] at hx ⊢
  by_cases hself : p.fromID = p.toID
  · rw [if_pos hself] at hx ⊢
    obtain rfl := mem_singleton.mp hx
    exact ⟨rfl, rfl, fun hne => absurd hself.symm hne⟩
  · rw [if_neg hself] at hx ⊢
    have hmirror : Mirror (p.outRow now k l) (p.inRow now (p.replyRef w.messages) l k) :=
      ⟨rfl, rfl, rfl, rfl, rfl⟩
    obtain rfl | rfl : x = p.outRow now k l ∨ x = p.inRow now (p.replyRef w.messages) l k := by
      simpa using hx
    · exact ⟨rfl, rfl, fun _ => ⟨_, by simp, hmirror, rfl⟩⟩
    · exact ⟨rfl, rfl, fun _ => ⟨_, mem_cons_self, hmirror.symm rfl, rfl⟩⟩

/-- Deletions and reads post nothing. -/
theorem Spec.postsOnly (h : Spec t d a w) (ht : t.actsInChats = false) : PostsOnly d w := by
  obtain ⟨as, hdid, has⟩ := h.outside ht
  have hact : ∀ a ∈ as, a.plain ∧ a.newMessages = [] := fun a ha => by
    have hone : a.deletes ∨ a.reads := has.imp (·.1 a ha) (· a ha)
    cases a with
    | side o => cases o <;> first | exact ⟨rfl, rfl⟩ | exact (hone.elim id id).elim
    | delete | mark => exact ⟨rfl, rfl⟩
    | _ => exact (hone.elim id id).elim
  exact .of_none hdid (fun a ha => (hact a ha).1) (newRows_eq_nil fun a ha => (hact a ha).2)

theorem Effect.change (h : Effect t d a w) (hspec : Spec t d a w) : Change d w := by
  cases t <;> cases a <;> first | exact hspec.elim | exact PostsOnly.change h.1 | skip
  case send.sent s =>
    obtain ⟨-, ⟨-, -, rfl⟩ | ⟨hdup, -⟩⟩ := hspec
    · exact .refl w
    · obtain ⟨as, hdid, hposts⟩ := SendRows.posts h hdup
      exact .posted as hdid hposts
  case sendChat.fannedOut s =>
    obtain ⟨-, m, -, -, -, -, -, ⟨-, -, rfl⟩ | ⟨hdup, -⟩⟩ := hspec
    · exact .refl w
    · obtain ⟨n, owners, delivered, as, hfresh, -, hdel, -⟩ := h hdup
      exact .posted as hdel.did (hdel.posts hfresh)
  case forward.forwarded =>
    obtain ⟨⟨as, hdid, -, hposts, -⟩, -⟩ := h
    exact .posted as hdid hposts
  case edit.edited =>
    obtain ⟨m, keys, hm, -, hreach, hdid⟩ := h
    exact .edited _ _ m keys hm.mem hreach hdid
  case delete.perOwner => exact (hspec.postsOnly rfl).change
  case readHistory.read => exact (hspec.postsOnly rfl).change
  case readChat.chatRead => exact (hspec.postsOnly rfl).change
  case react.copies =>
    obtain ⟨m, hm, -, -, hreach, hdid⟩ := h
    exact .reacted _ _ m _ hm hreach hdid
  case checkChatWrite.flag =>
    obtain rfl := h
    exact .refl w

theorem Reached.change (h : Reached states files c) (hr : r ∈ c.log) : Change r.pre r.post := by
  have hok := h.ok.records r hr
  cases ha : r.outcome.answer with
  | none =>
    rw [hok.unchanged ha]
    exact .refl _
  | some a => exact (h.effect hr ha).change (hok.spec ha)

/-- The columns of a message that a post leaves alone, its text among them. -/
def Message.worded (m : Message) : Message :=
  { m with editDate := none, deleted := false }

theorem Message.frozen_of_worded {m' : Message} (h : m.worded = m'.worded) :
    m.frozen = m'.frozen := by
  have hfrozen : m.worded.frozen = m'.worded.frozen := by rw [h]
  exact hfrozen

theorem worded_act {a : Act} (hplain : a.plain) (hok : a.Ok d) :
    (a.apply d).messages.map Message.worded =
      d.messages.map Message.worded ++ a.newMessages.map Message.worded := by
  cases a with
  | ensure user now => exact (append_nil _).symm
  | post m unread now => exact map_append
  | edit owner localID text now => exact absurd hplain Bool.false_ne_true
  | delete owner localID now =>
    change (updateWhere _ _ d.messages).map _ = _ ++ []
    rw [updateWhere, map_map, append_nil]
    refine map_congr_left fun x _ => ?_
    dsimp only [Function.comp_apply]
    split <;> rfl
  | mark owner type marker now => exact (append_nil _).symm
  | side o =>
    cases o <;> first | exact (append_nil _).symm | exact absurd hok Bool.false_ne_true

theorem worded_messages (hplain : ∀ a ∈ as, a.plain) (hok : ActsOk as d) :
    (runActs as d).messages.map Message.worded =
      d.messages.map Message.worded ++ (newRows as).map Message.worded := by
  induction as generalizing d with
  | nil => simp [newRows]
  | cons a as ih =>
    rw [runActs_cons, ih (fun a' ha' => hplain a' (by simp [ha'])) hok.2,
      worded_act (hplain a (by simp)) hok.1]
    simp [newRows]

theorem reactions_plain (hplain : ∀ a ∈ as, a.plain) (d : DB) :
    (runActs as d).reactions = d.reactions := by
  refine runActs_frame (fun a ha d => ?_) d
  have ha := hplain a ha
  cases a with
  | edit owner localID text now => exact absurd ha Bool.false_ne_true
  | side o => cases o <;> first | rfl | exact absurd ha Bool.false_ne_true
  | _ => rfl

theorem Posts.mem_messages (h : Posts as d) (hdid : Did as d w) (hx : x ∈ w.messages) :
    (∃ x' ∈ d.messages, x'.worded = x.worded) ∨ ∃ x' ∈ newRows as, x'.worded = x.worded := by
  have hmem : x.worded ∈ w.messages.map Message.worded := mem_map_of_mem hx
  rw [hdid.eq, worded_messages h.plain hdid.ok, mem_append, mem_map, mem_map] at hmem
  exact hmem

theorem Posts.stored (h : Posts as d) (hdid : Did as d w) (hy : y ∈ newRows as) :
    ∃ x ∈ w.messages, x.worded = y.worded := by
  have hmem : y.worded ∈ w.messages.map Message.worded := by
    rw [hdid.eq, worded_messages h.plain hdid.ok]
    exact mem_append_right _ (mem_map_of_mem hy)
  exact mem_map.mp hmem

theorem Did.key_ne (h : Did as d w) (hw : Inv w) (hx : x ∈ d.messages) (hy : y ∈ newRows as) :
    x.key ≠ y.key := by
  have hnodup : (w.messages.map key).Nodup :=
    List.Nodup.map_on (fun x hx y hy heq => hw.row_of_key hx hy heq) hw.nodup_messages
  have hkeys : w.messages.map key = d.messages.map key ++ (newRows as).map key := by
    have hfrozen := congrArg (List.map key) (h.eq ▸ h.ok.frozen_messages)
    rw [map_append, map_map, map_map, map_map] at hfrozen
    exact hfrozen
  rw [hkeys] at hnodup
  exact (nodup_append.mp hnodup).2.2 _ (mem_map_of_mem hx) _ (mem_map_of_mem hy)

/-! ## Reactions -/

def Reaction.on (q : Reaction) : Int × Int := (q.ownerID, q.localID)

structure ReactionsOk (d : DB) : Prop where
  rows : ∀ q ∈ d.reactions, ∃ m ∈ d.messages, m.key = q.on
  once : (d.reactions.map fun q => (q.on, q.reactorID)).Nodup

theorem Reaction.isFor_iff : Reaction.isFor u l reactor q ↔
    (q.on, q.reactorID) = ((u, l), reactor) := by
  simp [Reaction.isFor, Reaction.on, and_assoc]

theorem Reaction.eq_of_on (h : q.on = (u, l) ∧ q.reactorID = reactor) :
    q = ⟨u, l, reactor, q.reaction⟩ := by
  obtain ⟨hon, rfl⟩ := h
  cases hon
  rfl

/-- A reaction write decides about the reactor's reaction on the copy, and no other. -/
theorem mem_reactionWrite : q ∈ ((reactionWrite u l reactor reaction).apply d).reactions ↔
      if q.on = (u, l) ∧ q.reactorID = reactor then reaction = some q.reaction
        else q ∈ d.reactions := by
  have hfor : ∀ x : Reaction, Reaction.isFor u l reactor x ↔
      x.on = (u, l) ∧ x.reactorID = reactor :=
    fun x => by rw [Reaction.isFor_iff, Prod.mk.injEq]
  cases reaction with
  | none =>
    change q ∈ d.reactions.filter _ ↔ _
    rw [mem_filter]
    by_cases hq : q.on = (u, l) ∧ q.reactorID = reactor
    · simp [hq, (hfor q).mpr hq]
    · have := mt (hfor q).mp hq
      simp [hq, this]
  | some e =>
    change q ∈ upsertWhere _ _ _ d.reactions ↔ _
    rw [mem_upsertWhere]
    by_cases hq : q.on = (u, l) ∧ q.reactorID = reactor
    · have hrow := Reaction.eq_of_on hq
      have hrows : ∀ x : Reaction, Reaction.isFor u l reactor x → x = ⟨u, l, reactor, x.reaction⟩ :=
        fun x hx => Reaction.eq_of_on ((hfor x).mp hx)
      rw [if_pos hq]
      grind
    · rw [if_neg hq]
      grind [Reaction.on]

theorem mem_reactKeys : q ∈ (runActs (reactKeys reactor reaction keys) d).reactions ↔
      if q.on ∈ keys ∧ q.reactorID = reactor then reaction = some q.reaction
        else q ∈ d.reactions := by
  induction keys generalizing d with
  | nil => simp [reactKeys]
  | cons k ks ih =>
    change q ∈ (runActs (reactKeys reactor reaction ks)
      ((reactionWrite k.1 k.2 reactor reaction).apply d)).reactions ↔ _
    rw [ih, mem_reactionWrite]
    by_cases hk : q.on = k <;> by_cases hks : q.on ∈ ks <;> by_cases hq : q.reactorID = reactor <;>
      simp [hk, hks, hq]

theorem nodup_reactionWrite (h : (d.reactions.map fun q => (q.on, q.reactorID)).Nodup) :
    (((reactionWrite u l reactor reaction).apply d).reactions.map fun q =>
      (q.on, q.reactorID)).Nodup := by
  cases reaction with
  | none => exact h.sublist (filter_sublist.map _)
  | some e =>
    change ((upsertWhere _ _ _ d.reactions).map _).Nodup
    rw [upsertWhere]
    split
    · rw [map_updateWhere]
      · exact h
      · exact fun _ _ => rfl
    · rename_i hany
      rw [map_append, map_singleton]
      refine nodup_append.mpr ⟨h, by simp, fun a ha b hb heq => hany ?_⟩
      obtain ⟨q, hq, rfl⟩ := mem_map.mp ha
      rw [mem_singleton.mp hb] at heq
      exact any_eq_true.mpr ⟨q, hq, Reaction.isFor_iff.mpr heq⟩

theorem tables_reactKeys (reactor : Int) (reaction : Option String) (keys : Owned) (d : DB) :
    runActs (reactKeys reactor reaction keys) d =
      { d with reactions := (runActs (reactKeys reactor reaction keys) d).reactions } := by
  induction keys generalizing d with
  | nil => rfl
  | cons k ks ih =>
    change runActs (reactKeys reactor reaction ks)
      ((reactionWrite k.1 k.2 reactor reaction).apply d) = _
    rw [ih]
    cases reaction <;> rfl

theorem nodup_reactKeys (h : (d.reactions.map fun q => (q.on, q.reactorID)).Nodup) :
    ((runActs (reactKeys reactor reaction keys) d).reactions.map
      fun q => (q.on, q.reactorID)).Nodup := by
  induction keys generalizing d with
  | nil => exact h
  | cons k ks ih => exact ih (nodup_reactionWrite h)

theorem ReactionsOk.change (h : ReactionsOk d) (hc : Change d w) : ReactionsOk w := by
  -- Rows stay, under their keys.
  have hrows : ∀ {as}, Did as d w → w.reactions = d.reactions → ReactionsOk w := by
    intro as hdid heq
    refine ⟨fun q hq => ?_, heq ▸ h.once⟩
    obtain ⟨m, hm, hk⟩ := h.rows q (heq ▸ hq)
    obtain ⟨m', hm', hf⟩ := (hdid.eq ▸ grows_runActs as d : Grows d w).row hm
    exact ⟨m', hm', ((kept hf).key).trans hk⟩
  cases hc with
  | posted as did posts => exact hrows did (did.eq ▸ reactions_plain posts.plain d)
  | edited now text m keys mem reach did =>
    have htables := tables_editKeys now text keys d
    rw [← did.eq] at htables
    exact hrows did (by rw [htables])
  | reacted reactor reaction m keys mem reach did =>
    have htables := tables_reactKeys reactor reaction keys d
    rw [← did.eq] at htables
    have hmsgs : w.messages = d.messages := by rw [htables]
    refine ⟨fun q hq => ?_, did.eq ▸ nodup_reactKeys h.once⟩
    rw [hmsgs]
    rw [did.eq, mem_reactKeys] at hq
    split at hq
    · rename_i hon
      obtain ⟨x, hx, -, hk⟩ := (reach.mem q.on).mp hon.1
      exact ⟨x, hx, hk⟩
    · exact h.rows q hq

/-! ## Agreement -/

def DB.reactionsAt (d : DB) (k : Int × Int) : Set (Int × String) :=
  {p | ⟨k.1, k.2, p.1, p.2⟩ ∈ d.reactions}

def DB.alike (d : DB) (x y : Message) : Prop :=
  x.text = y.text ∧ d.reactionsAt x.key = d.reactionsAt y.key

theorem ReactionsOk.none_at (h : ReactionsOk d) {k : Int × Int} (hk : ∀ m ∈ d.messages, m.key ≠ k) :
    d.reactionsAt k = ∅ := by
  refine Set.eq_empty_of_forall_notMem fun p hp => ?_
  obtain ⟨m, hm, hon⟩ := h.rows _ hp
  exact hk m hm hon

/-- Rows that are posted together with one text, and that every change reaches together, stay
alike. -/
theorem Change.alike (h : Change d w) (hd : Inv d) (hw : Inv w) (hq : ReactionsOk d)
    (hx : x ∈ w.messages) (hy : y ∈ w.messages)
    (hold : ∀ x' ∈ d.messages, ∀ y' ∈ d.messages, x'.frozen = x.frozen → y'.frozen = y.frozen →
      d.alike x' y' ∧ (w.participants = d.participants →
        ∀ m ∈ d.messages, d.reaches m x' ↔ d.reaches m y'))
    (hnew : ∀ as, Did as d w → Posts as d → ((∃ x' ∈ newRows as, x'.worded = x.worded) ↔
      ∃ y' ∈ newRows as, y'.worded = y.worded))
    (htext : ∀ as, Did as d w → Posts as d → ∀ x' ∈ newRows as, ∀ y' ∈ newRows as,
      x'.worded = x.worded → y'.worded = y.worded → x'.text = y'.text) : w.alike x y := by
  have hcol : ∀ {a b : Message}, a.worded = b.worded → a.text = b.text ∧ a.key = b.key := by
    intro a b hab
    have ht : a.worded.text = b.worded.text := by rw [hab]
    exact ⟨ht, (kept (Message.frozen_of_worded hab)).key⟩
  cases h with
  | posted as did posts =>
    have hreact : w.reactions = d.reactions := did.eq ▸ reactions_plain posts.plain d
    have hat : ∀ k, w.reactionsAt k = d.reactionsAt k := fun k => by
      rw [DB.reactionsAt, hreact, DB.reactionsAt]
    have hboth := hnew as did posts
    by_cases hxnew : ∃ x' ∈ newRows as, x'.worded = x.worded
    · obtain ⟨y', hy', hyw⟩ := hboth.mp hxnew
      obtain ⟨x', hx', hxw⟩ := hxnew
      refine ⟨?_, ?_⟩
      · rw [← (hcol hxw).1, ← (hcol hyw).1]
        exact htext as did posts x' hx' y' hy' hxw hyw
      · rw [hat, hat, hq.none_at fun m hm => (hcol hxw).2 ▸ did.key_ne hw hm hx',
          hq.none_at fun m hm => (hcol hyw).2 ▸ did.key_ne hw hm hy']
    · obtain ⟨x', hx', hxw⟩ := (posts.mem_messages did hx).resolve_right hxnew
      obtain ⟨y', hy', hyw⟩ := (posts.mem_messages did hy).resolve_right (mt hboth.mpr hxnew)
      obtain ⟨⟨ht, hr⟩, -⟩ := hold x' hx' y' hy' (Message.frozen_of_worded hxw)
        (Message.frozen_of_worded hyw)
      refine ⟨?_, ?_⟩
      · rw [← (hcol hxw).1, ← (hcol hyw).1, ht]
      · rw [hat, hat, ← (hcol hxw).2, ← (hcol hyw).2, hr]
  | edited now text m keys mem reach did =>
    have htables := tables_editKeys now text keys d
    rw [← did.eq] at htables
    have hpart : w.participants = d.participants := by rw [htables]
    have hreact : w.reactions = d.reactions := by rw [htables]
    have hmsgs : w.messages = d.messages.map fun x =>
        if x.key ∈ keys then { x with text, editDate := some now } else x :=
      did.eq ▸ messages_editKeys now text keys d
    have hat : ∀ k, w.reactionsAt k = d.reactionsAt k := fun k => by
      rw [DB.reactionsAt, hreact, DB.reactionsAt]
    rw [hmsgs] at hx hy
    obtain ⟨x', hx', rfl⟩ := mem_map.mp hx
    obtain ⟨y', hy', rfl⟩ := mem_map.mp hy
    have hfrozen : ∀ z : Message,
        z.frozen = (if z.key ∈ keys then { z with text, editDate := some now } else z).frozen := by
      intro z
      split <;> rfl
    obtain ⟨⟨ht, hr⟩, hreach⟩ := hold x' hx' y' hy' (hfrozen x') (hfrozen y')
    have hiff : x'.key ∈ keys ↔ y'.key ∈ keys := by
      rw [reach.mem_key hd hx', reach.mem_key hd hy']
      exact hreach hpart m mem
    have hkey : ∀ z : Message,
        (if z.key ∈ keys then { z with text, editDate := some now } else z).key = z.key := by
      intro z
      split <;> rfl
    refine ⟨?_, ?_⟩
    · by_cases hin : x'.key ∈ keys
      · rw [if_pos hin, if_pos (hiff.mp hin)]
      · rw [if_neg hin, if_neg (mt hiff.mpr hin), ht]
    · rw [hat, hat, hkey, hkey, hr]
  | reacted reactor reaction m keys mem reach did =>
    have htables := tables_reactKeys reactor reaction keys d
    rw [← did.eq] at htables
    have hpart : w.participants = d.participants := by rw [htables]
    have hmsgs : w.messages = d.messages := by rw [htables]
    rw [hmsgs] at hx hy
    obtain ⟨⟨ht, hr⟩, hreach⟩ := hold x hx y hy rfl rfl
    have hiff : x.key ∈ keys ↔ y.key ∈ keys := by
      rw [reach.mem_key hd hx, reach.mem_key hd hy]
      exact hreach hpart m mem
    refine ⟨ht, Set.ext fun p => ?_⟩
    have hmem : ∀ k : Int × Int, p ∈ w.reactionsAt k ↔
        if k ∈ keys ∧ p.1 = reactor then reaction = some p.2 else p ∈ d.reactionsAt k := by
      intro k
      change (⟨k.1, k.2, p.1, p.2⟩ : Reaction) ∈ w.reactions ↔ _
      rw [did.eq, mem_reactKeys]
      rfl
    rw [hmem, hmem, hr]
    simp only [hiff]

theorem Inv.reaches_copy (h : Inv d) (hm : m ∈ d.messages) (hx : x ∈ d.messages)
    (h0 : x.fanoutID ≠ 0) (hfan : y.fanoutID = x.fanoutID) (hin : d.isChatMember x.peerID y.ownerID)
    (hr : d.reaches m x) : d.reaches m y := by
  have hchat : x.peerType = .chat :=
    (h.logs x.ownerID).chat_of_fanout (mem_filter.mpr ⟨hx, by simp⟩) h0
  have hmchat : m.peerType = .chat := by
    by_contra hne
    exact (h.of_reaches hm hne hx hr).1 hchat
  have hmfan : x.fanoutID = m.fanoutID := by
    simp only [DB.reaches, hmchat, if_true, Bool.or_eq_true, Bool.and_eq_true,
      decide_eq_true_eq] at hr
    rcases hr with hat | ⟨⟨-, hfan⟩, -⟩
    · rw [h.row_of_key hx hm (key_eq_iff.mpr hat)]
    · exact hfan
  have hpeer : m.peerID = x.peerID := h.fanouts x hx m hm h0 hmfan.symm
  simp only [DB.reaches, hmchat, if_true, Bool.or_eq_true, Bool.and_eq_true, decide_eq_true_eq]
  exact .inr ⟨⟨hmfan ▸ h0, hfan.trans hmfan⟩, hpeer ▸ hin⟩

theorem Inv.reaches_mirror (h : Inv d) (hm : m ∈ d.messages) (hx : x ∈ d.messages)
    (huser : x.peerType = .user) (hne : x.peerID ≠ x.ownerID) (hmirror : Mirror x y)
    (hr : d.reaches m x) :
    d.reaches m y := by
  have hplain : x.fanoutID = 0 :=
    ((h.logs x.ownerID).kinds x (mem_filter.mpr ⟨hx, by simp⟩)).elim (fun h => h.2.1)
      fun h => absurd (huser.symm.trans h.1) (by simp)
  have hmuser : m.peerType ≠ .chat := by
    intro hmchat
    simp only [DB.reaches, hmchat, if_true, Bool.or_eq_true, Bool.and_eq_true,
      decide_eq_true_eq] at hr
    rcases hr with hat | ⟨⟨h0, hfan⟩, -⟩
    · rw [h.row_of_key hx hm (key_eq_iff.mpr hat)] at huser
      exact absurd (huser.symm.trans hmchat) (by simp)
    · exact h0 (hfan ▸ hplain)
  simp only [DB.reaches, hmuser, if_false, Bool.or_eq_true, Bool.and_eq_true,
    decide_eq_true_eq] at hr ⊢
  rcases hr with hat | ⟨hmne, hat⟩
  · obtain rfl := h.row_of_key hx hm (key_eq_iff.mpr hat)
    exact .inr ⟨hne, isAt_iff.mpr ⟨hmirror.owner, hmirror.localID⟩⟩
  · obtain ⟨m', hm', hmm'⟩ := h.mirror hm hmuser hmne
    obtain ⟨hu, hl⟩ := isAt_iff.mp hat
    obtain rfl := row_unique h.logs hx hm' (hu.trans hmm'.owner.symm) (hl.trans hmm'.localID.symm)
    exact .inl (isAt_iff.mpr ⟨hmirror.owner.trans hmm'.peer,
      hmirror.localID.trans hmm'.peerLocalID⟩)

/-- The owner of the copy has been a member of its chat in every state that had the message. -/
def Stayed (c : StoreConfig) (x : Message) : Prop :=
  ∀ r ∈ c.log, ∀ m ∈ r.post.messages, m.fanoutID = x.fanoutID →
    r.post.isChatMember m.peerID x.ownerID

theorem reactionsOk_initial (states : Owned) (files : List File) :
    ReactionsOk (.initial states files) :=
  ⟨by simp [DB.initial], by simp [DB.initial]⟩

theorem Reached.reactionsOk_pre (h : Reached states files c) (hr : r ∈ c.log) : ReactionsOk r.pre :=
  h.ok.leads.invariant_pre (fun _ hr' hpre => hpre.change (h.change hr'))
    (reactionsOk_initial states files) hr

def DB.copiesAlike (d : DB) (n u v : Int) : Prop :=
  ∀ x ∈ d.messages, ∀ y ∈ d.messages, x.fanoutID = n → y.fanoutID = n → x.ownerID = u →
    y.ownerID = v → d.alike x y

theorem Reached.copies_alike (h : Reached states files c) {n v : Int} (h0 : n ≠ 0)
    (hu : ∀ r ∈ c.log, ∀ m ∈ r.post.messages, m.fanoutID = n → r.post.isChatMember m.peerID u)
    (hv : ∀ r ∈ c.log, ∀ m ∈ r.post.messages, m.fanoutID = n → r.post.isChatMember m.peerID v) :
    c.db.copiesAlike n u v := by
  refine h.ok.leads.invariant (P := (·.copiesAlike n u v))
    (fun r hr hpre x hx y hy hxn hyn hxu hyv => ?_) (by simp [DB.copiesAlike, DB.initial])
  have hok := h.ok.records r hr
  have hfan : ∀ {a b : Message}, a.worded = b.worded → b.fanoutID = n → a.fanoutID = n :=
    fun hab hb => (kept (Message.frozen_of_worded hab)).fanoutID.trans hb
  refine (h.change hr).alike hok.1 hok.2.1 (h.reactionsOk_pre hr) hx hy
    (fun x' hx' y' hy' hxf hyf => ?_)
    (fun as hdid hposts => ?_) fun as _ hposts x' hx' y' hy' hxw hyw => ?_
  · have hxk := kept hxf
    have hyk := kept hyf
    have hxn' : x'.fanoutID = n := hxk.fanoutID.trans hxn
    have hyn' : y'.fanoutID = n := hyk.fanoutID.trans hyn
    refine ⟨hpre x' hx' y' hy' hxn' hyn' (hxk.ownerID.trans hxu) (hyk.ownerID.trans hyv),
      fun hpart m hm => ?_⟩
    have hmember : ∀ c u, r.pre.isChatMember c u = r.post.isChatMember c u := fun c u => by
      rw [DB.isChatMember, ← hpart, DB.isChatMember]
    have hxin : r.pre.isChatMember y'.peerID x'.ownerID := by
      rw [hmember, hyk.peerID, hxk.ownerID, hxu]
      exact hu r hr y hy hyn
    have hyin : r.pre.isChatMember x'.peerID y'.ownerID := by
      rw [hmember, hxk.peerID, hyk.ownerID, hyv]
      exact hv r hr x hx hxn
    have hx0 : x'.fanoutID ≠ 0 := hxn'.trans_ne h0
    have hsame : y'.fanoutID = x'.fanoutID := hyn'.trans hxn'.symm
    exact ⟨hok.1.reaches_copy hm hx' hx0 hsame hyin,
      hok.1.reaches_copy hm hy' (hsame.trans_ne hx0) hsame.symm hxin⟩
  · -- A fan-out's rows are posted by one call.
    have hpush : ∀ {a b : Message}, b ∈ r.post.messages → a.fanoutID = n → b.fanoutID = n →
        (∃ a' ∈ newRows as, a'.worded = a.worded) → ∃ b' ∈ newRows as, b'.worded = b.worded := by
      rintro a b hb han hbn ⟨a', ha', haw⟩
      refine (hposts.mem_messages hdid hb).resolve_left ?_
      rintro ⟨b', hb', hbw⟩
      have han' := hfan haw han
      have hbn' := hfan hbw hbn
      exact hposts.fresh a' ha' (han'.trans_ne h0) b' hb' (hbn'.trans han'.symm)
    exact ⟨hpush hy hxn hyn, hpush hx hyn hxn⟩
  · have hxn' := hfan hxw hxn
    have hyn' := hfan hyw hyn
    exact (hposts.copies x' hx' y' hy' (hxn'.trans_ne h0) (hyn'.trans hxn'.symm)).symm

def DB.mirrorsAlike (d : DB) : Prop :=
  ∀ x ∈ d.messages, ∀ y ∈ d.messages, x.peerType = .user → x.peerID ≠ x.ownerID → Mirror x y →
    d.alike x y

theorem Mirror.of_frozen {x' y' : Message} (h : Mirror x y) (hx : x'.frozen = x.frozen)
    (hy : y'.frozen = y.frozen) : Mirror x' y' := by
  have hxk := kept hx
  have hyk := kept hy
  exact ⟨by rw [hyk.ownerID, hxk.peerID, h.owner], by rw [hyk.localID, hxk.peerLocalID, h.localID],
    by rw [hyk.peerType, h.peerType], by rw [hyk.peerID, hxk.ownerID, h.peer],
    by rw [hyk.peerLocalID, hxk.localID, h.peerLocalID]⟩

theorem Reached.mirrors_alike (h : Reached states files c) : c.db.mirrorsAlike := by
  refine h.ok.leads.invariant (P := DB.mirrorsAlike)
    (fun r hr hpre x hx y hy huser hne hmirror => ?_) (by simp [DB.mirrorsAlike, DB.initial])
  have hok := h.ok.records r hr
  have hback : Mirror y x := hmirror.symm huser
  have hyne : y.peerID ≠ y.ownerID := by
    rw [hmirror.peer, hmirror.owner]
    exact Ne.symm hne
  -- The mirror of what was posted was posted with it, with its text.
  have hpush : ∀ {as}, Did as r.pre r.post → Posts as r.pre → ∀ {a b a' : Message},
      b ∈ r.post.messages → a.peerType = .user → a.peerID ≠ a.ownerID → Mirror a b →
        a' ∈ newRows as →
      a'.worded = a.worded → ∃ b' ∈ newRows as, b'.worded = b.worded ∧ b'.text = a'.text := by
    intro as hdid hposts a b a' hb hau hane hab ha' haw
    have haf := Message.frozen_of_worded haw
    obtain ⟨b', hb', hab', htext⟩ := hposts.mirrors a' ha' ((kept haf).peerType.trans hau)
      (by rw [(kept haf).peerID, (kept haf).ownerID]
          exact hane)
    obtain ⟨b'', hb'', hbw⟩ := hposts.stored hdid hb'
    have hbf := Message.frozen_of_worded hbw
    have hmir : Mirror a b'' := hab'.of_frozen haf.symm hbf
    obtain rfl := row_unique hok.2.1.logs hb'' hb (hmir.owner.trans hab.owner.symm)
      (hmir.localID.trans hab.localID.symm)
    exact ⟨b', hb', hbw.symm, htext⟩
  refine (h.change hr).alike hok.1 hok.2.1 (h.reactionsOk_pre hr) hx hy
    (fun x' hx' y' hy' hxf hyf => ?_) (fun as hdid hposts => ⟨?_, ?_⟩)
    fun as hdid hposts x' hx' y' hy' hxw hyw => ?_
  · have hmirror' := hmirror.of_frozen hxf hyf
    have huser' : x'.peerType = .user := (kept hxf).peerType.trans huser
    have hne' : x'.peerID ≠ x'.ownerID := by
      rw [(kept hxf).peerID, (kept hxf).ownerID]
      exact hne
    have hyne' : y'.peerID ≠ y'.ownerID := by
      rw [hmirror'.peer, hmirror'.owner]
      exact Ne.symm hne'
    exact ⟨hpre x' hx' y' hy' huser' hne' hmirror', fun _ m hm =>
      ⟨hok.1.reaches_mirror hm hx' huser' hne' hmirror',
        hok.1.reaches_mirror hm hy' hmirror'.peerType hyne' (hmirror'.symm huser')⟩⟩
  · rintro ⟨x', hx', hxw⟩
    obtain ⟨y', hy', hyw, -⟩ := hpush hdid hposts hy huser hne hmirror hx' hxw
    exact ⟨y', hy', hyw⟩
  · rintro ⟨y', hy', hyw⟩
    obtain ⟨x', hx', hxw, -⟩ := hpush hdid hposts hx hmirror.peerType hyne hback hy' hyw
    exact ⟨x', hx', hxw⟩
  · obtain ⟨y'', -, hyw', htext⟩ := hpush hdid hposts hy huser hne hmirror hx' hxw
    have hsame : y''.worded.text = y'.worded.text := by rw [hyw', hyw]
    exact htext.symm.trans hsame

/-- In every state that an interleaving of calls commits, the two rows of a 1:1 message are alike,
and so are the copies of a chat message whose owners stayed; a reactor has one reaction at most on a
copy. -/
theorem copies_agree (h : Reached states files c) :
    (∀ x ∈ c.db.messages, ∀ y ∈ c.db.messages, x.peerType = .user → x.peerID ≠ x.ownerID →
      Mirror x y → c.db.alike x y) ∧
    (∀ x ∈ c.db.messages, ∀ y ∈ c.db.messages, x.fanoutID ≠ 0 → y.fanoutID = x.fanoutID →
      Stayed c x → Stayed c y → c.db.alike x y) ∧
    (c.db.reactions.map fun q => (q.on, q.reactorID)).Nodup := by
  refine ⟨h.mirrors_alike, fun x hx y hy h0 hfan hxs hys => ?_, ?_⟩
  · exact h.copies_alike h0 hxs (hfan ▸ hys) x hx y hy rfl hfan rfl rfl
  · exact (h.ok.leads.invariant (fun _ hr' hpre => hpre.change (h.change hr'))
      (reactionsOk_initial states files)).once

/-- 2 and 3 stay in the chat while 1's message is edited and reacted to. -/
theorem copies_agree_chat :
    ∃ x ∈ (inChat [2, 3] [.react 2 1 (some "+"), .edit 11 1 1 "ho"]).db.messages,
      ∃ y ∈ (inChat [2, 3] [.react 2 1 (some "+"), .edit 11 1 1 "ho"]).db.messages,
      (x.ownerID, y.ownerID, x.text) = (2, 3, "ho") ∧
        (inChat [2, 3] [.react 2 1 (some "+"), .edit 11 1 1 "ho"]).db.alike x y := by
  refine ⟨_, getElem_mem (n := 1) (by decide), _, getElem_mem (n := 2) (by decide),
    by decide +kernel, ?_⟩
  refine (copies_agree (reached_serialRun (by decide +kernel))).2.1 _ (getElem_mem (by decide)) _
    (getElem_mem (by decide)) (by decide +kernel) (by decide +kernel) ?_ ?_
  · unfold Stayed
    decide +kernel
  · unfold Stayed
    decide +kernel

end TelegramServer.Store
