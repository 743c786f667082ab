import Mathlib.Algebra.Order.Floor.Ring
import Mathlib.Data.Rat.Floor
import Mathlib.Data.List.Pairwise
import Mathlib.Data.List.Nodup

/-!
# The identifiers of mails

`generate_mail_id` of `mail_server.lua` writes the second of the clock and a number that starts at 0 in each second one behind
the other. The two are not separated, and the number has as many digits as it needs.
-/

namespace SkynetServer.MailServer

/-- The variables of the service. -/
structure Server where
  lastSendTime : Option Int := none
  mailAccumulate : Nat := 0

/-- `time` is what `skynet.time()` returns. -/
def generateMailId (s : Server) (time : ℚ) : String × Server :=
  let nowtime := ⌊time⌋
  let mailAccumulate := if s.lastSendTime = some nowtime then s.mailAccumulate + 1 else 0
  (toString nowtime ++ toString mailAccumulate, { lastSendTime := some nowtime, mailAccumulate })

/-- The identifiers that successive calls return. -/
def generateMailIds (s : Server) : List ℚ → List String
  | [] => []
  | time :: times =>
    let (id, s') := generateMailId s time
    id :: generateMailIds s' times

/-! ### The number of a mail -/

/-- The second and the number in it. -/
structure Stamp where
  second : Int
  number : Nat

def Stamp.id (stamp : Stamp) : String := toString stamp.second ++ toString stamp.number

def Stamp.Before (a b : Stamp) : Prop := a.second < b.second ∨ a.second = b.second ∧ a.number < b.number

theorem Stamp.Before.trans {a b c : Stamp} (hab : a.Before b) (hbc : b.Before c) : a.Before c := by
  unfold Stamp.Before at *
  omega

/-- What the service remembers of its last call. -/
def Server.stamp (s : Server) (second : Int) : Stamp := ⟨second, s.mailAccumulate⟩

/-- The stamps of successive calls. -/
def stamps (s : Server) : List ℚ → List Stamp
  | [] => []
  | time :: times =>
    let s' := (generateMailId s time).2
    s'.stamp ⌊time⌋ :: stamps s' times

theorem generateMailIds_eq (s : Server) (times : List ℚ) : generateMailIds s times = (stamps s times).map Stamp.id := by
  induction times generalizing s with
  | nil => rfl
  | cons time times ih =>
    rw [stamps, List.map_cons, ← ih]
    rfl

theorem second_of_mem_stamps {s : Server} {times : List ℚ} {stamp : Stamp} (h : stamp ∈ stamps s times) :
    ∃ time ∈ times, stamp.second = ⌊time⌋ := by
  induction times generalizing s with
  | nil => cases h
  | cons time times ih =>
    rcases List.mem_cons.mp h with rfl | h
    · exact ⟨time, List.mem_cons_self, rfl⟩
    · obtain ⟨time', hmem, heq⟩ := ih h
      exact ⟨time', List.mem_cons_of_mem _ hmem, heq⟩

/-- A call goes beyond the one before it, as long as the clock does not go back. -/
theorem before_generateMailId {s : Server} {second : Int} {time : ℚ} (hlast : s.lastSendTime = some second)
    (hle : second ≤ ⌊time⌋) : (s.stamp second).Before ((generateMailId s time).2.stamp ⌊time⌋) := by
  rcases hle.eq_or_lt with heq | hlt
  · refine .inr ⟨heq, ?_⟩
    simp only [generateMailId, Server.stamp, hlast, heq, if_true]
    exact Nat.lt_succ_self _
  · exact .inl hlt

theorem before_stamps {s : Server} {second : Int} {times : List ℚ} (hlast : s.lastSendTime = some second)
    (hle : ∀ time ∈ times, second ≤ ⌊time⌋) (hmono : times.Pairwise (· ≤ ·)) :
    ∀ stamp ∈ stamps s times, (s.stamp second).Before stamp := by
  induction times generalizing s second with
  | nil => simp [stamps]
  | cons time times ih =>
    have hfirst := before_generateMailId hlast (hle time List.mem_cons_self)
    obtain ⟨hrest, hmono'⟩ := List.pairwise_cons.mp hmono
    intro stamp hstamp
    rcases List.mem_cons.mp hstamp with rfl | hstamp
    · exact hfirst
    · exact hfirst.trans (ih rfl (fun time' hmem => Int.floor_mono (hrest time' hmem)) hmono' stamp hstamp)

theorem pairwise_stamps (s : Server) {times : List ℚ} (hmono : times.Pairwise (· ≤ ·)) :
    (stamps s times).Pairwise Stamp.Before := by
  induction times generalizing s with
  | nil => exact List.Pairwise.nil
  | cons time times ih =>
    obtain ⟨hrest, hmono'⟩ := List.pairwise_cons.mp hmono
    refine List.Pairwise.cons ?_ (ih _ hmono')
    exact before_stamps rfl (fun time' hmem => Int.floor_mono (hrest time' hmem)) hmono'

/-! ### Reading an identifier back -/

/-- The number has ten decimal digits. -/
def TenDigits (n : Int) : Prop := 10 ^ 9 ≤ n ∧ n < 10 ^ 10

theorem length_toDigits_of_tenDigits {n : Nat} (h : TenDigits n) : (Nat.toDigits 10 n).length = 10 := by
  obtain ⟨hge, hlt⟩ := h
  have hle : (Nat.toDigits 10 n).length ≤ 10 := (Nat.length_toDigits_le_iff (by decide) (by decide)).mpr (by omega)
  have hnine : ¬ (Nat.toDigits 10 n).length ≤ 9 := by
    rw [Nat.length_toDigits_le_iff (by decide) (by decide)]
    omega
  omega

theorem toDigits_inj {m n : Nat} (h : Nat.toDigits 10 m = Nat.toDigits 10 n) : m = n := by
  have hvalue := congrArg (fun digits => Nat.ofDigitChars 10 digits 0) h
  simpa using hvalue

/-- The first ten digits are the second. -/
theorem Stamp.id_inj {a b : Stamp} (ha : TenDigits a.second) (hb : TenDigits b.second) (h : a.id = b.id) :
    a.second = b.second ∧ a.number = b.number := by
  obtain ⟨m, hm⟩ := Int.eq_ofNat_of_zero_le (by have := ha.1; omega : 0 ≤ a.second)
  obtain ⟨n, hn⟩ := Int.eq_ofNat_of_zero_le (by have := hb.1; omega : 0 ≤ b.second)
  rw [hm] at ha
  rw [hn] at hb
  have hdigits : Nat.toDigits 10 m ++ Nat.toDigits 10 a.number = Nat.toDigits 10 n ++ Nat.toDigits 10 b.number := by
    have hlist := congrArg String.toList h
    simp only [Stamp.id, hm, hn, String.toList_append] at hlist
    simpa [toString, Int.repr] using hlist
  obtain ⟨hsecond, hnumber⟩ := List.append_inj hdigits
    ((length_toDigits_of_tenDigits ha).trans (length_toDigits_of_tenDigits hb).symm)
  exact ⟨by rw [hm, hn, toDigits_inj hsecond], toDigits_inj hnumber⟩

/-- **Mail ids.** As long as the clock does not go back and its seconds have ten digits, no two calls return the same string. -/
theorem mailIds_nodup (times : List ℚ) (hmono : times.Pairwise (· ≤ ·)) (hdigits : ∀ time ∈ times, TenDigits ⌊time⌋) :
    (generateMailIds {} times).Nodup := by
  rw [generateMailIds_eq, List.Nodup, List.pairwise_map]
  refine (pairwise_stamps {} hmono).imp_of_mem ?_
  intro a b ha hb hbefore heq
  obtain ⟨time, hmem, hsecond⟩ := second_of_mem_stamps ha
  obtain ⟨time', hmem', hsecond'⟩ := second_of_mem_stamps hb
  obtain ⟨heq₁, heq₂⟩ := Stamp.id_inj (hsecond ▸ hdigits time hmem) (hsecond' ▸ hdigits time' hmem') heq
  unfold Stamp.Before at hbefore
  omega

/-- Twice in one second, then in the next one. -/
theorem mailIds_nodup_three_calls : (generateMailIds {} [1500000000, 3000000001 / 2, 1500000001]).Nodup :=
  mailIds_nodup _ (by norm_num) (by norm_num [TenDigits])

end SkynetServer.MailServer
