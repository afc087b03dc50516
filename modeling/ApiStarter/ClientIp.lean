import ApiStarter.Context
import ApiStarter.IpAddresses

/-!
# The client's address behind a proxy

Behind a trusted proxy the address that counts is the one the proxy appended to
the forwarding header.  It is looked for in the first line of that header, and
only if the whole line is ASCII.  A client that sends a line of its own, where
the proxy adds another, or two lines, or one that is not ASCII, is believed or
hidden.
-/

namespace ApiStarter

open Relational

/-- A header value has no control characters but the tab. -/
structure HeaderValue where
  bytes : List UInt8
  valid : ∀ b ∈ bytes, b = 9 ∨ 32 ≤ b ∧ b ≠ 127

/-- The header lines of a request in order, their names in lower case. -/
abbrev HeaderLines := List (String × HeaderValue)

structure SocketAddr where
  ip : IpAddr
  port : UInt16

namespace HeaderValue

def isVisibleAscii (v : HeaderValue) : Bool :=
  v.bytes.all fun b ↦ decide (b = 9) || (decide (32 ≤ b) && decide (b < 127))

/-- The value byte by byte. -/
def text (v : HeaderValue) : String := String.ofList (v.bytes.map fun b ↦ Char.ofNat b.toNat)

/-- The items of both values, separated by a comma. -/
def append (v w : HeaderValue) : HeaderValue where
  bytes := v.bytes ++ 44 :: w.bytes
  valid := by
    intro b hb
    rcases List.mem_append.mp hb with hv | hw
    · exact v.valid b hv
    · rcases List.mem_cons.mp hw with rfl | hw
      · decide
      · exact w.valid b hw

theorem isVisibleAscii_append (v w : HeaderValue) :
    (v.append w).isVisibleAscii = (v.isVisibleAscii && w.isVisibleAscii) := by
  simp [isVisibleAscii, append]

theorem text_append (v w : HeaderValue) :
    (v.append w).text.toList = v.text.toList ++ ',' :: w.text.toList := by
  simp [text, append]

end HeaderValue

/-- What is used of the `http` crate. -/
structure Http where
  /-- `HeaderMap::get` -/
  get : HeaderLines → String → Option HeaderValue
  /-- `HeaderValue::to_str` -/
  toStr : HeaderValue → Option String

/-- What the crate says of them: `get` is the first of the name's values, and `to_str` is the
text of a value of visible ASCII characters. -/
structure Http.Documented (http : Http) : Prop where
  get_eq : ∀ headers name, http.get headers name =
    (headers.find? fun line ↦ decide (line.1 = name)).map Prod.snd
  toStr_eq : ∀ v, http.toStr v = if v.isVisibleAscii then some v.text else none

/-- `s.rsplit(',').next()` -/
def lastItem (s : String) : String :=
  String.ofList (s.toList.reverse.takeWhile fun c ↦ decide (c ≠ ',')).reverse

def clientIp (http : Http) (headers : HeaderLines) (peer : SocketAddr)
    (trustProxy : Bool) : IpAddr :=
  let forwarded := if trustProxy then do
      let value ← http.get headers "x-forwarded-for"
      let forwarded ← http.toStr value
      IpAddr.parse (trim (lastItem forwarded))
    else none
  forwarded.getD peer.ip

/-! ## The rate limiter -/

/-- The requests of one client since the window started. -/
structure Hits where
  client : IpAddr
  started : ℕ
  count : UInt32

structure RateLimiter where
  maxRequests : UInt32
  window : ℕ
  trustProxy : Bool
  hits : Table Hits.client

def maxTrackedClients : ℕ := 10000

namespace RateLimiter

def allow (limiter : RateLimiter) (client : IpAddr) (now : ℕ) : Bool × RateLimiter :=
  let hits := if maxTrackedClients ≤ limiter.hits.rows.length then
      limiter.hits.deleteWhere fun h ↦ !decide (now - h.started < limiter.window)
    else limiter.hits
  let entry := (hits.get? client).getD ⟨client, now, 0⟩
  let entry := if limiter.window ≤ now - entry.started then ⟨client, now, 0⟩ else entry
  let entry := { entry with count := entry.count + 1 }
  (decide (entry.count ≤ limiter.maxRequests), { limiter with hits := hits.put entry })

/-- The response, or `none` for `TooManyRequests`. -/
def passOn {Response : Type} (limiter : RateLimiter) (next : Response) (client : IpAddr) (now : ℕ) :
    Option Response × RateLimiter :=
  let (allowed, limiter) := limiter.allow client now
  (if allowed then some next else none, limiter)

/-- `rate_limit::enforce` -/
def enforce {Response : Type} (http : Http) (limiter : RateLimiter) (next : Response)
    (headers : HeaderLines) (connectInfo : Option SocketAddr) (now : ℕ) :
    Option Response × RateLimiter :=
  let peer := connectInfo.getD ⟨.v4 #v[0, 0, 0, 0], 0⟩
  limiter.passOn next (clientIp http headers peer limiter.trustProxy) now

end RateLimiter

/-! ## The proxy -/

/-- How the proxy appends its entry to what the client sent. -/
inductive Appending
  | comma
  | line

def isForwardedFor (line : String × HeaderValue) : Bool := decide (line.1 = "x-forwarded-for")

/-- The entry after a comma in the last line, or in a first one. -/
def appendToLast (entry : HeaderValue) : HeaderLines → HeaderLines
  | [] => [("x-forwarded-for", entry)]
  | line :: lines =>
      if isForwardedFor line && !lines.any isForwardedFor then
        (line.1, line.2.append entry) :: lines
      else line :: appendToLast entry lines

def Appending.forward (how : Appending) (entry : HeaderValue) (lines : HeaderLines) : HeaderLines :=
  match how with
  | .comma => appendToLast entry lines
  | .line => lines ++ [("x-forwarded-for", entry)]

/-- Whatever address the proxy appends to these lines is taken for the client's, and is what the
rate limiter goes by. -/
def EntryDecides (http : Http) (how : Appending) (lines : HeaderLines) : Prop :=
  ∀ entry addr peer, entry.isVisibleAscii = true → IpAddr.parse (trim entry.text) = some addr →
    clientIp http (how.forward entry lines) peer true = addr ∧
      ∀ (limiter : RateLimiter) (now : ℕ), limiter.trustProxy = true →
        limiter.enforce http () (how.forward entry lines) (some peer) now =
          limiter.passOn () addr now

/-- The client sent no forwarding header, or one line of visible ASCII that the proxy extends. -/
def readsEntry (how : Appending) (lines : HeaderLines) : Bool :=
  match how, lines.filter isForwardedFor with
  | _, [] => true
  | .comma, [line] => line.2.isVisibleAscii
  | _, _ => false

/-! ## Items of a header -/

section Items

variable {s : String} {addr : IpAddr}

theorem mem_trim {c : Char} (hc : c ∈ s.toList) : c ∈ (trim s).toList ∨ isWhiteSpace c = true := by
  by_contra hnot
  rw [not_or] at hnot
  obtain ⟨hkept, hspace⟩ := hnot
  apply hkept
  have hdrop : ∀ l : List Char, c ∈ l → c ∈ l.dropWhile isWhiteSpace := by
    intro l hl
    rw [← List.takeWhile_append_dropWhile (p := isWhiteSpace) (l := l), List.mem_append] at hl
    exact hl.resolve_left fun htaken ↦ hspace (List.mem_takeWhile_imp htaken)
  simp only [trim, String.toList_ofList, List.mem_reverse]
  exact hdrop _ (List.mem_reverse.mpr (hdrop _ hc))

/-- An entry that is an address has no comma. -/
theorem comma_not_mem (h : IpAddr.parse (trim s) = some addr) : ',' ∉ s.toList := by
  intro hcomma
  rcases mem_trim hcomma with hkept | hspace
  · have hchar := List.all_eq_true.mp (IpAddr.all_of_parse h) ',' hkept
    exact absurd hchar (by decide)
  · exact absurd hspace (by decide)

theorem lastItem_of_comma_not_mem (h : ',' ∉ s.toList) : lastItem s = s := by
  have hall : s.toList.reverse.takeWhile (fun c ↦ decide (c ≠ ',')) = s.toList.reverse := by
    rw [List.takeWhile_eq_self_iff]
    intro c hc
    have hne : c ≠ ',' := by
      rintro rfl
      exact h (List.mem_reverse.mp hc)
    simpa using hne
  rw [lastItem, hall, List.reverse_reverse, String.ofList_toList]

theorem lastItem_append {t : String} {front : List Char} (hs : s.toList = front ++ ',' :: t.toList)
    (h : ',' ∉ t.toList) : lastItem s = t := by
  have hall : ∀ c ∈ t.toList.reverse, decide (c ≠ ',') = true := by
    intro c hc
    have hne : c ≠ ',' := by
      rintro rfl
      exact h (List.mem_reverse.mp hc)
    simpa using hne
  have hreverse : s.toList.reverse = t.toList.reverse ++ ',' :: front.reverse := by
    simp [hs]
  rw [lastItem, hreverse, List.takeWhile_append_of_pos hall]
  simp

end Items

/-! ## What the proxy leaves for the first line -/

section Lines

variable {entry : HeaderValue} {lines : HeaderLines} {line : String × HeaderValue}

theorem find?_appendToLast_none (h : lines.filter isForwardedFor = []) :
    (appendToLast entry lines).find? isForwardedFor = some ("x-forwarded-for", entry) := by
  induction lines with
  | nil => rfl
  | cons l lines ih =>
      cases hl : isForwardedFor l with
      | true => simp [hl] at h
      | false =>
          rw [List.filter_cons_of_neg (by simp [hl])] at h
          simpa [appendToLast, hl] using ih h

theorem find?_appendToLast_one (h : lines.filter isForwardedFor = [line]) :
    (appendToLast entry lines).find? isForwardedFor = some (line.1, line.2.append entry) := by
  induction lines with
  | nil => cases h
  | cons l lines ih =>
      cases hl : isForwardedFor l with
      | true =>
          rw [List.filter_cons_of_pos hl] at h
          obtain ⟨rfl, hnone⟩ := List.cons.inj h
          have hlast : lines.any isForwardedFor = false := by
            rw [List.any_eq_false]
            exact List.filter_eq_nil_iff.mp hnone
          have hname : isForwardedFor (l.1, l.2.append entry) = true := hl
          simp [appendToLast, hl, hlast, hname]
      | false =>
          rw [List.filter_cons_of_neg (by simp [hl])] at h
          simpa [appendToLast, hl] using ih h

theorem find?_appendToLast_more {next : String × HeaderValue} {rest : HeaderLines}
    (h : lines.filter isForwardedFor = line :: next :: rest) :
    (appendToLast entry lines).find? isForwardedFor = some line := by
  induction lines with
  | nil => cases h
  | cons l lines ih =>
      cases hl : isForwardedFor l with
      | true =>
          rw [List.filter_cons_of_pos hl] at h
          obtain ⟨rfl, hmore⟩ := List.cons.inj h
          have hlater : lines.any isForwardedFor = true := by
            have hnext : next ∈ lines.filter isForwardedFor := by simp [hmore]
            exact List.any_eq_true.mpr ⟨next, List.mem_filter.mp hnext⟩
          simp [appendToLast, hl, hlater]
      | false =>
          rw [List.filter_cons_of_neg (by simp [hl])] at h
          simpa [appendToLast, hl] using ih h

theorem find?_line (h : lines.filter isForwardedFor = []) :
    (Appending.line.forward entry lines).find? isForwardedFor =
      some ("x-forwarded-for", entry) := by
  have hnone : lines.find? isForwardedFor = none :=
    List.find?_eq_none.mpr (List.filter_eq_nil_iff.mp h)
  rw [Appending.forward, List.find?_append, hnone]
  rfl

theorem find?_line_more {rest : HeaderLines} (h : lines.filter isForwardedFor = line :: rest) :
    (Appending.line.forward entry lines).find? isForwardedFor = some line := by
  have hfirst : lines.find? isForwardedFor = some line := by
    rw [← List.head?_filter, h]
    rfl
  rw [Appending.forward, List.find?_append, hfirst]
  rfl

end Lines

/-! ## The client's address -/

section ClientIp

variable {http : Http} (hdoc : http.Documented) {how : Appending} {lines : HeaderLines}
include hdoc

/-- The first forwarding line decides, the peer where it says nothing. -/
theorem clientIp_eq {headers : HeaderLines} {peer : SocketAddr} {line : String × HeaderValue}
    (h : headers.find? isForwardedFor = some line) : clientIp http headers peer true =
      (if line.2.isVisibleAscii then IpAddr.parse (trim (lastItem line.2.text)) else none).getD
        peer.ip := by
  have hget : http.get headers "x-forwarded-for" = some line.2 := by
    rw [hdoc.get_eq]
    exact congrArg (Option.map Prod.snd) h
  unfold clientIp
  cases hvisible : line.2.isVisibleAscii <;> simp [hget, hdoc.toStr_eq, hvisible]

theorem clientIp_of_readsEntry (h : readsEntry how lines = true) {entry : HeaderValue}
    {addr : IpAddr} (hentry : entry.isVisibleAscii = true)
    (haddr : IpAddr.parse (trim entry.text) = some addr) (peer : SocketAddr) :
    clientIp http (how.forward entry lines) peer true = addr := by
  have hcomma := comma_not_mem haddr
  have hnew {headers : HeaderLines}
      (hfind : headers.find? isForwardedFor = some ("x-forwarded-for", entry)) :
      clientIp http headers peer true = addr := by
    rw [clientIp_eq hdoc hfind, if_pos hentry, lastItem_of_comma_not_mem hcomma, haddr]
    rfl
  cases hforwarded : lines.filter isForwardedFor with
  | nil =>
      cases how with
      | comma => exact hnew (find?_appendToLast_none hforwarded)
      | line => exact hnew (find?_line hforwarded)
  | cons line rest =>
      cases how with
      | line => simp [readsEntry, hforwarded] at h
      | comma =>
          cases rest with
          | cons next rest => simp [readsEntry, hforwarded] at h
          | nil =>
              have hvisible : (line.2.append entry).isVisibleAscii = true := by
                rw [HeaderValue.isVisibleAscii_append, hentry, Bool.and_true]
                simpa [readsEntry, hforwarded] using h
              have hfirst : (Appending.comma.forward entry lines).find? isForwardedFor =
                  some (line.1, line.2.append entry) := find?_appendToLast_one hforwarded
              rw [clientIp_eq hdoc hfirst, if_pos hvisible,
                lastItem_append (HeaderValue.text_append _ _) hcomma, haddr]
              rfl

/-- Otherwise the proxy's entry is not looked at. -/
theorem clientIp_of_not_readsEntry (h : readsEntry how lines = false) :
    ∃ said : Option IpAddr, ∀ entry peer,
      clientIp http (how.forward entry lines) peer true = said.getD peer.ip := by
  cases hforwarded : lines.filter isForwardedFor with
  | nil => simp [readsEntry, hforwarded] at h
  | cons line rest =>
      cases how with
      | line => exact ⟨_, fun entry peer ↦ clientIp_eq hdoc (find?_line_more hforwarded)⟩
      | comma =>
          cases rest with
          | cons next rest =>
              exact ⟨_, fun entry peer ↦ clientIp_eq hdoc (find?_appendToLast_more hforwarded)⟩
          | nil =>
              refine ⟨none, fun entry peer ↦ ?_⟩
              have hhidden : (line.2.append entry).isVisibleAscii = false := by
                rw [HeaderValue.isVisibleAscii_append]
                simpa [readsEntry, hforwarded] using congrArg (· && entry.isVisibleAscii) h
              have hfirst : (Appending.comma.forward entry lines).find? isForwardedFor =
                  some (line.1, line.2.append entry) := find?_appendToLast_one hforwarded
              rw [clientIp_eq hdoc hfirst, if_neg (by simp [hhidden])]

end ClientIp

/-- Two addresses the proxy might append. -/
def documentationEntry (last : UInt8) (h : last = 49 ∨ last = 50) : HeaderValue where
  bytes := [49, 57, 50, 46, 48, 46, 50, 46, last]
  valid := by
    rcases h with rfl | rfl <;> simp

theorem client_ip_appended_iff {http : Http} (hdoc : http.Documented) (how : Appending)
    (lines : HeaderLines) : EntryDecides http how lines ↔ readsEntry how lines = true := by
  constructor
  · intro hdecides
    by_contra hnot
    obtain ⟨said, hsaid⟩ := clientIp_of_not_readsEntry hdoc (Bool.eq_false_iff.mpr hnot)
    -- two entries would have to be the same address
    let peer : SocketAddr := ⟨.v4 #v[10, 0, 0, 1], 12345⟩
    have hone := (hdecides (documentationEntry 49 (.inl rfl))
      (.v4 #v[192, 0, 2, 1]) peer (by decide)
      (by decide)).1
    have htwo := (hdecides (documentationEntry 50 (.inr rfl))
      (.v4 #v[192, 0, 2, 2]) peer (by decide)
      (by decide)).1
    rw [hsaid] at hone htwo
    exact absurd (hone.symm.trans htwo) (by decide)
  · intro hreads entry addr peer hentry haddr
    have hclient := clientIp_of_readsEntry hdoc hreads hentry haddr peer
    refine ⟨hclient, fun limiter now htrust ↦ ?_⟩
    rw [RateLimiter.enforce, htrust, Option.getD_some, hclient]

/-- Two requests of which each has no forwarding line of the client's, or one that the proxy
extends, are of the same client. -/
theorem clientIp_eq_of_readsEntry {http : Http} (hdoc : http.Documented) {how : Appending}
    {lines lines' : HeaderLines} (h : readsEntry how lines = true)
    (h' : readsEntry how lines' = true) {entry : HeaderValue} {addr : IpAddr}
    (hentry : entry.isVisibleAscii = true) (haddr : IpAddr.parse (trim entry.text) = some addr)
    (peer : SocketAddr) : clientIp http (how.forward entry lines) peer true =
      clientIp http (how.forward entry lines') peer true := by
  calc
    clientIp http (how.forward entry lines) peer true = addr :=
      clientIp_of_readsEntry hdoc h hentry haddr peer
    _ = clientIp http (how.forward entry lines') peer true :=
      (clientIp_of_readsEntry hdoc h' hentry haddr peer).symm

/-- The `http` crate on the lines of a request. -/
def Http.sample : Http where
  get headers name := (headers.find? fun line ↦ decide (line.1 = name)).map Prod.snd
  toStr v := if v.isVisibleAscii then some v.text else none

theorem client_ip_appended_to_one_line :
    EntryDecides .sample .comma [("x-forwarded-for", documentationEntry 49 (.inl rfl))] :=
  (client_ip_appended_iff ⟨fun _ _ ↦ rfl, fun _ ↦ rfl⟩ .comma _).mpr (by decide)

/-- With a line of its own the client chooses its address. -/
theorem client_chooses_ip : ¬∀ (http : Http), http.Documented → ∀ how lines,
    EntryDecides http how lines := by
  intro h
  have hdecides := h .sample ⟨fun _ _ ↦ rfl, fun _ ↦ rfl⟩ .line
    [("x-forwarded-for", documentationEntry 49 (.inl rfl))]
  have hclient := (hdecides (documentationEntry 50 (.inr rfl)) (.v4 #v[192, 0, 2, 2])
    ⟨.v4 #v[10, 0, 0, 1], 12345⟩ (by decide) (by decide)).1
  exact absurd hclient (by decide)

end ApiStarter
