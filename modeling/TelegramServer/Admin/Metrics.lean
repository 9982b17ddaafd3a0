import Mathlib.Algebra.BigOperators.Fin
import Mathlib.Data.BitVec

/-!
# The breakdowns of the admin metrics

What the notification counters hold, through the rolling snapshot to the response. The totals
are computed from the indexed arrays and the breakdowns from the fields that the response lists.
Rates, percentiles and window lengths are not part of it.
-/

namespace TelegramServer.Admin

open Finset

/-- An `int64` counter. -/
abbrev Count := BitVec 64

def notificationWindowSeconds : Int := 3600
def notificationBucketCount : Nat := 3601
def notificationUnsetEpoch : Int := -2 ^ 63

/-- One second of counters, as a reader meets it: `busy` while it is being reset. Behind the ten
channels is the count of invalid input, behind the 21 surfaces that of dropped denials. -/
structure NotificationMetricBucket where
  epoch : Int := notificationUnsetEpoch
  busy : Bool := false
  counts : Fin 11 → Count := 0
  rateLimitDenials : Fin 22 → Count := 0
  pushOutcomes : Fin 4 → Count := 0
  latencies : Fin 16 → Count := 0

def NotificationMetricBucket.snapshot (b : NotificationMetricBucket) :
    Option NotificationMetricBucket :=
  if b.busy then none
  else some { b with pushOutcomes := Function.update b.pushOutcomes 0 (∑ i, b.latencies i) }

structure NotificationMetrics where
  buckets : List NotificationMetricBucket
  size : buckets.length = notificationBucketCount

structure NotificationChannelCounts where
  (updates typing evict channelPost encryption status encryptedMsg reactions pinned
    dialogFilters : Count)

structure RateLimitDenialSurfaceCounts where
  (messageSend createChat addChatUser createChannel messagesSearch contactsSearch
    messagesSearchGlobal saveFilePart uploadGetFile sendCodeIPCalls sendCodeIPDistinctNumbers
    signInFailIP checkPassword checkPasswordIP getPasswordIP signUpIP passwordProof getPassword
    updateProfile dialogFilterMutation channelUnreadCount : Count)

structure PushOutcomeCounts where
  (success ownerMismatch encodeFailure writeFailure : Count)

structure PushMetricsSnapshot where
  sampleCount : Count
  outcomes : PushOutcomeCounts
  latencyBucketCounts : Fin 16 → Count

structure RateLimitDenialMetricsSnapshot where
  count : Count
  bySurface : RateLimitDenialSurfaceCounts
  dropped : Count

structure NotificationMetricsSnapshot where
  notifyCount : Count
  channels : NotificationChannelCounts
  invalid : Count
  push : PushMetricsSnapshot
  rateLimitDenials : RateLimitDenialMetricsSnapshot

/-- The buckets of the last hour that could be read; none without a recorder. -/
def recentBuckets (notifyMetrics : Option NotificationMetrics) (nowSecond : Int) :
    List NotificationMetricBucket :=
  match notifyMetrics with
  | none => []
  | some m => (m.buckets.filterMap (·.snapshot)).filter fun b =>
      ¬(b.epoch ≤ nowSecond - notificationWindowSeconds ∨ b.epoch > nowSecond)

def snapshotOf (buckets : List NotificationMetricBucket) : NotificationMetricsSnapshot :=
  let counts := (buckets.map (·.counts)).sum
  let denials := (buckets.map (·.rateLimitDenials)).sum
  let outcomes := (buckets.map (·.pushOutcomes)).sum
  { notifyCount := ∑ i : Fin 10, counts i.castSucc
    channels := ⟨counts 0, counts 1, counts 2, counts 3, counts 4, counts 5, counts 6, counts 7,
      counts 8, counts 9⟩
    invalid := counts 10
    push :=
      { sampleCount := outcomes 0
        outcomes := ⟨outcomes 0, outcomes 1, outcomes 2, outcomes 3⟩
        latencyBucketCounts := (buckets.map (·.latencies)).sum }
    rateLimitDenials :=
      { count := ∑ i : Fin 21, denials i.castSucc
        bySurface := ⟨denials 0, denials 1, denials 2, denials 3, denials 4, denials 5, denials 6,
          denials 7, denials 8, denials 9, denials 10, denials 11, denials 12, denials 13,
          denials 14, denials 15, denials 16, denials 17, denials 18, denials 19, denials 20⟩
        dropped := denials 21 } }

def notificationSnapshot (notifyMetrics : Option NotificationMetrics) (nowSecond : Int) :
    NotificationMetricsSnapshot :=
  snapshotOf (recentBuckets notifyMetrics nowSecond)

/-! ## The response -/

abbrev Breakdown := List (String × Count)

def Breakdown.total (b : Breakdown) : Count := (b.map (·.2)).sum

structure MetricsResponse where
  notifyCount : Count
  notifyChannels : Breakdown
  notifyInvalid : Count
  pushLatencySampleCount : Count
  pushOutcomes : PushOutcomeCounts
  pushLatencyBucketCounts : Fin 16 → Count
  rateLimitDenialsCount : Count
  rateLimitDenialsBySurface : Breakdown
  rateLimitDenialsDropped : Count

def notificationChannels (c : NotificationChannelCounts) : Breakdown :=
  [("tg_updates", c.updates), ("tg_typing", c.typing), ("tg_evict", c.evict),
    ("tg_channel_post", c.channelPost), ("tg_encryption", c.encryption), ("tg_status", c.status),
    ("tg_encrypted_msg", c.encryptedMsg), ("tg_reactions", c.reactions), ("tg_pinned", c.pinned),
    ("tg_dialog_filters", c.dialogFilters)]

-- The last field of the counts is not among them.
def rateLimitDenialsBySurface (c : RateLimitDenialSurfaceCounts) : Breakdown :=
  [("message_send", c.messageSend), ("create_chat", c.createChat),
    ("add_chat_user", c.addChatUser), ("create_channel", c.createChannel),
    ("messages_search", c.messagesSearch), ("contacts_search", c.contactsSearch),
    ("messages_search_global", c.messagesSearchGlobal), ("save_file_part", c.saveFilePart),
    ("upload_get_file", c.uploadGetFile), ("send_code_ip_calls", c.sendCodeIPCalls),
    ("send_code_ip_distinct_numbers", c.sendCodeIPDistinctNumbers),
    ("sign_in_fail_ip", c.signInFailIP), ("check_password", c.checkPassword),
    ("check_password_ip", c.checkPasswordIP), ("get_password_ip", c.getPasswordIP),
    ("sign_up_ip", c.signUpIP), ("password_proof", c.passwordProof),
    ("get_password", c.getPassword), ("update_profile", c.updateProfile),
    ("dialog_filter_mutation", c.dialogFilterMutation)]

/-- The part of `collectMetricsWithDeliveryLag` that comes from the counters. -/
def collectMetrics (notifyMetrics : Option NotificationMetrics) (nowSecond : Int) :
    MetricsResponse :=
  let notify := notificationSnapshot notifyMetrics nowSecond
  { notifyCount := notify.notifyCount
    notifyChannels := notificationChannels notify.channels
    notifyInvalid := notify.invalid
    pushLatencySampleCount := notify.push.sampleCount
    pushOutcomes := notify.push.outcomes
    pushLatencyBucketCounts := notify.push.latencyBucketCounts
    rateLimitDenialsCount := notify.rateLimitDenials.count
    rateLimitDenialsBySurface := rateLimitDenialsBySurface notify.rateLimitDenials.bySurface
    rateLimitDenialsDropped := notify.rateLimitDenials.dropped }

structure MetricsResponse.BrokenDown (r : MetricsResponse) : Prop where
  denials : r.rateLimitDenialsBySurface.total = r.rateLimitDenialsCount
  channels : r.notifyChannels.total = r.notifyCount
  latencies : ∑ i, r.pushLatencyBucketCounts i = r.pushLatencySampleCount
  samples : r.pushLatencySampleCount = r.pushOutcomes.success

/-- The surfaces of the response miss the denials of the last surface. -/
theorem total_bySurface (buckets : List NotificationMetricBucket) :
    (snapshotOf buckets).rateLimitDenials.count =
      (rateLimitDenialsBySurface (snapshotOf buckets).rateLimitDenials.bySurface).total +
        (snapshotOf buckets).rateLimitDenials.bySurface.channelUnreadCount := by
  simp only [snapshotOf]
  rw [Fin.sum_univ_castSucc, Fin.sum_univ_def]
  rfl

theorem total_channels (buckets : List NotificationMetricBucket) :
    (notificationChannels (snapshotOf buckets).channels).total =
      (snapshotOf buckets).notifyCount := by
  simp only [snapshotOf]
  rw [Fin.sum_univ_def]
  rfl

/-- Every bucket that was read has the sum of its latencies as its successes. -/
theorem sum_latencies {buckets : List NotificationMetricBucket}
    (h : ∀ b ∈ buckets, b.pushOutcomes 0 = ∑ i, b.latencies i) :
    ∑ i, (snapshotOf buckets).push.latencyBucketCounts i =
      (snapshotOf buckets).push.sampleCount := by
  simp only [snapshotOf]
  induction buckets with
  | nil => simp
  | cons b bs ih =>
    obtain ⟨hb, hbs⟩ := List.forall_mem_cons.mp h
    simp only [List.map_cons, List.sum_cons, Pi.add_apply, sum_add_distrib]
    rw [ih hbs, hb]

theorem successes_recentBuckets {notifyMetrics : Option NotificationMetrics} {nowSecond : Int}
    {b : NotificationMetricBucket} (h : b ∈ recentBuckets notifyMetrics nowSecond) :
    b.pushOutcomes 0 = ∑ i, b.latencies i := by
  cases notifyMetrics with
  | none => simp [recentBuckets] at h
  | some m =>
    obtain ⟨b₀, -, hsnap⟩ := List.mem_filterMap.mp (List.mem_of_mem_filter h)
    unfold NotificationMetricBucket.snapshot at hsnap
    split at hsnap
    · simp at hsnap
    · cases hsnap
      simp only [Function.update_self]

/-- Whatever the counters hold, the breakdowns of the response are without loss exactly if no
denial of unread counts in channels was counted. -/
theorem brokenDown_iff (notifyMetrics : Option NotificationMetrics) (nowSecond : Int) :
    (collectMetrics notifyMetrics nowSecond).BrokenDown ↔
      ((recentBuckets notifyMetrics nowSecond).map (·.rateLimitDenials)).sum 20 = 0 := by
  have hcount := total_bySurface (recentBuckets notifyMetrics nowSecond)
  constructor
  · intro h
    exact left_eq_add.mp (h.denials.trans hcount)
  · intro h
    rw [show (snapshotOf _).rateLimitDenials.bySurface.channelUnreadCount = 0 from h, add_zero]
      at hcount
    exact ⟨hcount.symm, total_channels _, sum_latencies fun b => successes_recentBuckets, rfl⟩

/-- A recorder that has counted one denial of unread counts, at second 7200. -/
def unreadCountDenied : NotificationMetrics where
  buckets := { epoch := 7200, rateLimitDenials := Function.update 0 20 1 } :: List.replicate 3600 {}
  size := by simp [notificationBucketCount, -List.reduceReplicate]

theorem denied_surface_missing :
    (collectMetrics (some unreadCountDenied) 7200).rateLimitDenialsCount = 1 ∧
      ¬(collectMetrics (some unreadCountDenied) 7200).BrokenDown := by
  have hrecent : recentBuckets (some unreadCountDenied) 7200 =
      [{ epoch := 7200, rateLimitDenials := Function.update 0 20 1 }] := by
    simp [unreadCountDenied, recentBuckets, NotificationMetricBucket.snapshot,
      notificationWindowSeconds, notificationUnsetEpoch, -List.reduceReplicate]
  have hcount : (collectMetrics (some unreadCountDenied) 7200).rateLimitDenialsCount = 1 := by
    simp only [collectMetrics, notificationSnapshot, hrecent]
    decide
  refine ⟨hcount, fun h => ?_⟩
  have htotal : (collectMetrics (some unreadCountDenied) 7200).rateLimitDenialsBySurface.total
      = 0 := by
    simp only [collectMetrics, notificationSnapshot, hrecent]
    decide
  have hsum := h.denials
  rw [htotal, hcount] at hsum
  exact absurd hsum (by decide)

end TelegramServer.Admin
