import Mathlib.Data.List.GetD
import Vsnfs.ClientMount

/-! The mount options as a fold. Each recognised segment sets one field and the others have no effect,
so the last port and the last timeout win. The numbers are not compared with the fields they go to:
the port is kept as an `int` and, in network order, in sixteen bits, and both are cut from the number
the text spells. Without a port option the port is what the copy of the host has left of the default. -/

namespace Vsnfs

open Base

/-- The number of a recognised port option. -/
def portValue (segment : List Byte) : Option Nat :=
  match matchToken segment with
  | .port value => unsignedNumber value
  | _ => none

def timeoutValue (segment : List Byte) : Option Nat :=
  match matchToken segment with
  | .timeout value => unsignedNumber value
  | _ => none

def lastPort (rawData : Option (List Byte)) : Option Nat := ((segments rawData).filterMap portValue).getLast?

def lastTimeout (rawData : Option (List Byte)) : Option Nat :=
  ((segments rawData).filterMap timeoutValue).getLast?

/-- The recognised options in their order. -/
def tokens (rawData : Option (List Byte)) : List Token :=
  ((segments rawData).map matchToken).filter (fun token => token ≠ .err)

theorem matchToken_nil : matchToken [] = .err := by decide

/-- The text of a recognised option is a number. -/
theorem number_of_matchToken {segment value : List Byte}
    (h : matchToken segment = .port value ∨ matchToken segment = .timeout value) :
    (unsignedNumber value).isSome := by
  rw [matchToken] at h
  split at h
  · rename_i hport
    simp only [matchPattern, Bool.and_eq_true] at hport
    simp only [Token.port.injEq, reduceCtorEq, or_false] at h
    exact h ▸ hport.2
  · split at h
    · rename_i htimeout
      simp only [matchPattern, Bool.and_eq_true] at htimeout
      simp only [Token.timeout.injEq, reduceCtorEq, false_or] at h
      exact h ▸ htimeout.2
    · simp at h

theorem parseOption_eq (server : VsnfsServer) (segment : List Byte) :
    parseOption server segment = applyToken server (matchToken segment) := by
  rw [parseOption]
  split
  · rename_i hnil
    rw [hnil, matchToken_nil]
    rfl
  · rfl

/-- The loop depends on the recognised options only. -/
theorem parseOptions_eq (server : VsnfsServer) (rawData : Option (List Byte)) :
    runFrom parseOption server (segments rawData) = runFrom applyToken server (tokens rawData) := by
  have hidle : ∀ state token, decide (token ≠ Token.err) = false → applyToken state token = state := by
    intro state token htoken
    have herr : token = .err := by simpa using htoken
    rw [herr]
    rfl
  rw [tokens, runFrom_filter hidle, runFrom, runFrom, List.foldl_map]
  exact congrArg (fun step => (segments rawData).foldl step server) (funext₂ parseOption_eq)

/-- A port and a timeout set different fields. -/
theorem applyToken_comm (server : VsnfsServer) (port timeout : List Byte) :
    applyToken (applyToken server (.port port)) (.timeout timeout) =
      applyToken (applyToken server (.timeout timeout)) (.port port) := rfl

theorem runFrom_reordered (server : VsnfsServer) (front back : List Token) (port timeout : List Byte) :
    runFrom applyToken server (front ++ .port port :: .timeout timeout :: back) =
      runFrom applyToken server (front ++ .timeout timeout :: .port port :: back) := by
  simp only [runFrom, List.foldl_append, List.foldl_cons, applyToken_comm]

/-! ### The fields -/

@[simp] theorem VsnfsServer.serverPort_setServerPort (server : VsnfsServer) (port : Word) :
    (server.setServerPort port).serverPort = port := by
  simp only [VsnfsServer.serverPort, VsnfsServer.setServerPort, overwrite_getD, leBytes_length]
  exact leWord_bytes port

theorem optionInt_of_number {value : List Byte} {number : Nat} (h : unsignedNumber value = some number) :
    optionInt value = BitVec.ofNat 32 number := by
  rw [optionInt, simpleStrtol_of_number h, BitVec.setWidth_ofNat_of_le (by decide)]

theorem applyToken_port {value : List Byte} {number : Nat} (h : unsignedNumber value = some number)
    (server : VsnfsServer) :
    (applyToken server (.port value)).serverPort = BitVec.ofNat 32 number ∧
      (applyToken server (.port value)).sinPort = htons (BitVec.ofNat 16 number) := by
  refine ⟨(server.serverPort_setServerPort (optionInt value)).trans (optionInt_of_number h), ?_⟩
  rw [applyToken, optionInt_of_number h, BitVec.setWidth_ofNat_of_le (by decide)]

/-- The two port fields: an option sets both, every other segment leaves both. -/
theorem parseOption_port (server : VsnfsServer) (segment : List Byte) :
    (∀ number, portValue segment = some number →
      ((parseOption server segment).serverPort, (parseOption server segment).sinPort) =
        (BitVec.ofNat 32 number, htons (BitVec.ofNat 16 number))) ∧
    (portValue segment = none →
      ((parseOption server segment).serverPort, (parseOption server segment).sinPort) =
        (server.serverPort, server.sinPort)) := by
  rw [parseOption_eq, portValue]
  cases htoken : matchToken segment with
  | port value =>
      have hsome := number_of_matchToken (.inl htoken)
      refine ⟨fun number hnumber => ?_, fun hnone => ?_⟩
      · obtain ⟨hport, hsin⟩ := applyToken_port hnumber server
        rw [hport, hsin]
      · exact absurd hsome (by simp only at hnone; simp [hnone])
  | timeout value =>
      refine ⟨fun number hnumber => ?_, fun _ => rfl⟩
      cases hnumber
  | err =>
      refine ⟨fun number hnumber => ?_, fun _ => rfl⟩
      cases hnumber

theorem parseOption_timeout (server : VsnfsServer) (segment : List Byte) :
    (∀ number, timeoutValue segment = some number →
      (parseOption server segment).timeout = (BitVec.ofNat 32 number).toInt) ∧
    (timeoutValue segment = none → (parseOption server segment).timeout = server.timeout) := by
  rw [parseOption_eq, timeoutValue]
  cases htoken : matchToken segment with
  | timeout value =>
      have hsome := number_of_matchToken (.inr htoken)
      refine ⟨fun number hnumber => ?_, fun hnone => ?_⟩
      · rw [applyToken, optionInt_of_number hnumber]
      · exact absurd hsome (by simp only at hnone; simp [hnone])
  | port value =>
      refine ⟨fun number hnumber => ?_, fun _ => rfl⟩
      cases hnumber
  | err =>
      refine ⟨fun number hnumber => ?_, fun _ => rfl⟩
      cases hnumber

/-- After the loop the port fields come from the last port option. -/
theorem parseOptions_port (server : VsnfsServer) (rawData : Option (List Byte)) :
    ((runFrom parseOption server (segments rawData)).serverPort,
        (runFrom parseOption server (segments rawData)).sinPort) =
      ((lastPort rawData).map fun number => (BitVec.ofNat 32 number, htons (BitVec.ofNat 16 number))).getD
        (server.serverPort, server.sinPort) :=
  runFrom_last_wins (fun server : VsnfsServer => (server.serverPort, server.sinPort))
    (fun server segment number hnumber => (parseOption_port server segment).1 number hnumber)
    (fun server segment hnone => (parseOption_port server segment).2 hnone) server (segments rawData)

theorem parseOptions_timeout (server : VsnfsServer) (rawData : Option (List Byte)) :
    (runFrom parseOption server (segments rawData)).timeout =
      ((lastTimeout rawData).map fun number => (BitVec.ofNat 32 number).toInt).getD server.timeout :=
  runFrom_last_wins VsnfsServer.timeout
    (fun server segment number hnumber => (parseOption_timeout server segment).1 number hnumber)
    (fun server segment hnone => (parseOption_timeout server segment).2 hnone) server (segments rawData)

/-! ### The default port behind the host -/

/-- The copy of the host and its terminator leave the default port as it was: they end in front of it,
or the host is of eighteen bytes and its last two are the port's. -/
def HostKeepsPort (host : List Byte) : Prop :=
  host.length ≤ 15 ∨ (host.length = 18 ∧ host.drop 16 = [0x85, 0x1a])

/-- A byte of the port once the host is stored. -/
theorem stored_getD (dev : DevName) (pointer : BitVec 64) (server : VsnfsServer) {index : Nat}
    (hlow : 16 ≤ index) (hhigh : index < 20) :
    (stored dev pointer server).memory.getD index 0 =
      if index ≤ dev.host.length then dev.host.getD index 0
      else (leBytes (BitVec.ofNat 32 vsnfsPort)).getD (index - 16) 0 := by
  have hfront : ¬ (VsnfsServer.mntPathOffset ≤ index ∧ index < VsnfsServer.rootFhOffset) := by
    simp only [VsnfsServer.mntPathOffset]
    omega
  simp only [stored, VsnfsServer.setMntPath_getD, if_neg hfront, VsnfsServer.withDefaults,
    VsnfsServer.setServerPort, overwrite_getD, leBytes_length, List.length_append, List.length_singleton,
    Nat.zero_le, true_and, Nat.sub_zero, Nat.zero_add]
  rw [getD_append_terminator]
  refine if_congr Nat.lt_succ_iff rfl ?_
  exact if_pos ⟨hlow, by simp only [VsnfsServer.portOffset]; omega⟩

/-- Only behind its end does the host read as zero. -/
theorem DevName.host_getD_eq_zero_iff (dev : DevName) (index : Nat) :
    dev.host.getD index 0 = 0 ↔ dev.host.length ≤ index := by
  constructor
  · intro hzero
    by_contra hinside
    rw [List.getD_eq_getElem _ _ (Nat.lt_of_not_le hinside)] at hzero
    exact dev.host_ne_zero _ (List.getElem_mem _) hzero
  · exact List.getD_eq_default _ _

theorem leWord_eq_default_iff (b0 b1 b2 b3 : Byte) :
    leWord b0 b1 b2 b3 = BitVec.ofNat 32 vsnfsPort ↔ b0 = 0x85 ∧ b1 = 0x1a ∧ b2 = 0 ∧ b3 = 0 := by
  constructor
  · intro hword
    obtain ⟨h0, h1, h2, h3⟩ := byteOf_leWord b0 b1 b2 b3
    rw [hword] at h0 h1 h2 h3
    exact ⟨h0.symm.trans (by decide), h1.symm.trans (by decide), h2.symm.trans (by decide),
      h3.symm.trans (by decide)⟩
  · rintro ⟨rfl, rfl, rfl, rfl⟩
    decide

/-- The default port is still there exactly when the host keeps it. -/
theorem stored_serverPort_iff (dev : DevName) (pointer : BitVec 64) (server : VsnfsServer) :
    (stored dev pointer server).serverPort = BitVec.ofNat 32 vsnfsPort ↔ HostKeepsPort dev.host := by
  have hend := fun index => (dev.host_getD_eq_zero_iff index).mpr
  have hstored : ∀ index, 16 ≤ index → index < 20 → _ := fun index hlow hhigh =>
    stored_getD dev pointer server hlow hhigh
  rw [VsnfsServer.serverPort, leWord_eq_default_iff, hstored 16 (by decide) (by decide),
    hstored 17 (by decide) (by decide), hstored 18 (by decide) (by decide),
    hstored 19 (by decide) (by decide), HostKeepsPort]
  obtain hshort | hlength | hlength | hlength | hlong :
      dev.host.length ≤ 15 ∨ dev.host.length = 16 ∨ dev.host.length = 17 ∨ dev.host.length = 18 ∨
        19 ≤ dev.host.length := by omega
  · -- All four bytes are the default's.
    simp only [show ¬ 16 ≤ dev.host.length by omega, show ¬ 17 ≤ dev.host.length by omega,
      show ¬ 18 ≤ dev.host.length by omega, show ¬ 19 ≤ dev.host.length by omega, if_false]
    exact iff_of_true (by decide) (.inl hshort)
  · -- The terminator is the first byte.
    refine iff_of_false (fun h => absurd h.1 ?_) (by omega)
    rw [if_pos (by omega), hend 16 (by omega)]
    decide
  · -- The terminator is the second byte.
    refine iff_of_false (fun h => absurd h.2.1 ?_) (by omega)
    rw [if_pos (by omega), hend 17 (by omega)]
    decide
  · -- The host's last two bytes are the first two, the terminator is the third.
    have hdrop : dev.host.drop 16 = [dev.host.getD 16 0, dev.host.getD 17 0] := by
      rw [List.drop_eq_getElem_cons (by omega), List.drop_eq_getElem_cons (by omega),
        List.drop_eq_nil_of_le (by omega), List.getD_eq_getElem _ _ (by omega),
        List.getD_eq_getElem _ _ (by omega)]
    simp only [show 16 ≤ dev.host.length by omega, show 17 ≤ dev.host.length by omega,
      show 18 ≤ dev.host.length by omega, show ¬ 19 ≤ dev.host.length by omega, if_true, if_false,
      hdrop, hend 18 (by omega), List.cons.injEq, and_true]
    constructor
    · rintro ⟨hfirst, hsecond, -⟩
      exact .inr ⟨hlength, hfirst, hsecond⟩
    · rintro (hshort | ⟨-, hfirst, hsecond⟩)
      · omega
      · exact ⟨hfirst, hsecond, trivial, by decide⟩
  · -- The third byte is the host's.
    refine iff_of_false (fun h => ?_) (by omega)
    have hthird := h.2.2.1
    rw [if_pos (by omega), dev.host_getD_eq_zero_iff] at hthird
    omega

/-! ### The whole option string -/

/-- What the options are to do. The two port fields agree, the last option of each kind wins, segments
that are not recognised have no effect, and neither has the order of a port and a timeout. -/
structure OptionsFolded (pton : Pton Word) (pointer : BitVec 64) (rawData : Option (List Byte))
    (dev : DevName) (server : VsnfsServer) : Prop where
  port : (vsnfsParseMountOptions pton (some pointer) rawData dev server).2.serverPort.toInt =
    (lastPort rawData).getD vsnfsPort
  timeout : (vsnfsParseMountOptions pton (some pointer) rawData dev server).2.timeout =
    (lastTimeout rawData).getD vsnfsTimeout
  agree : ((ntohs (vsnfsParseMountOptions pton (some pointer) rawData dev server).2.sinPort).toNat : Int) =
    (vsnfsParseMountOptions pton (some pointer) rawData dev server).2.serverPort.toInt
  ignored : ∀ other, tokens other = tokens rawData →
    vsnfsParseMountOptions pton (some pointer) other dev server =
      vsnfsParseMountOptions pton (some pointer) rawData dev server
  reordered : ∀ other front back port timeout,
    tokens rawData = front ++ .port port :: .timeout timeout :: back →
    tokens other = front ++ .timeout timeout :: .port port :: back →
    vsnfsParseMountOptions pton (some pointer) other dev server =
      vsnfsParseMountOptions pton (some pointer) rawData dev server

/-- The last port fits in sixteen bits and the last timeout in an `int`, and without a port option the
host leaves the default alone. -/
def OptionsInRange (rawData : Option (List Byte)) (dev : DevName) : Prop :=
  (∀ number, lastPort rawData = some number → number < 2 ^ 16) ∧
    (∀ number, lastTimeout rawData = some number → number < 2 ^ 31) ∧
    (lastPort rawData = none → HostKeepsPort dev.host)

theorem toInt_ofNat_eq_iff (number : Nat) : (BitVec.ofNat 32 number).toInt = number ↔ number < 2 ^ 31 := by
  rw [BitVec.toInt_eq_toNat_cond, BitVec.toNat_ofNat]
  split <;> omega

/-- The numbers of one port option agree with the text and with each other in sixteen bits only. -/
theorem port_fields_iff (number : Nat) :
    ((BitVec.ofNat 32 number).toInt = number ∧
      ((ntohs (htons (BitVec.ofNat 16 number))).toNat : Int) = (BitVec.ofNat 32 number).toInt) ↔
        number < 2 ^ 16 := by
  have hint := toInt_ofNat_eq_iff number
  rw [ntohs, htons_htons, BitVec.toNat_ofNat]
  constructor
  · rintro ⟨hport, hagree⟩
    rw [hport] at hagree
    omega
  · intro hlt
    have hport := hint.mpr (by omega)
    exact ⟨hport, by rw [hport, Nat.mod_eq_of_lt hlt]⟩

/-- The port fields after the loop are those of the last option exactly in range. -/
theorem ports_folded_iff (pton : Pton Word) (dev : DevName) (pointer : BitVec 64) (server : VsnfsServer)
    (rawData : Option (List Byte)) {last : VsnfsServer}
    (hlast : last = runFrom parseOption (addressed pton dev pointer server) (segments rawData)) :
    (last.serverPort.toInt = (lastPort rawData).getD vsnfsPort ∧
      ((ntohs last.sinPort).toNat : Int) = last.serverPort.toInt) ↔
      (∀ number, lastPort rawData = some number → number < 2 ^ 16) ∧
        (lastPort rawData = none → HostKeepsPort dev.host) := by
  have hports := parseOptions_port (addressed pton dev pointer server) rawData
  rw [← hlast] at hports
  cases hraw : lastPort rawData with
  | some number =>
      simp only [hraw, Option.map_some, Option.getD_some, Prod.mk.injEq] at hports
      rw [hports.1, hports.2, Option.getD_some, port_fields_iff]
      simp
  | none =>
      simp only [hraw, Option.map_none, Option.getD_none, Prod.mk.injEq] at hports
      rw [hports.1, hports.2, Option.getD_none]
      have hkeeps := stored_serverPort_iff dev pointer server
      have hdefault : (BitVec.ofNat 32 vsnfsPort).toInt = vsnfsPort := by decide
      have hsin : ((ntohs (addressed pton dev pointer server).sinPort).toNat : Int) = vsnfsPort := by
        change ((ntohs (htons (BitVec.ofNat 16 vsnfsPort))).toNat : Int) = vsnfsPort
        decide
      constructor
      · rintro ⟨hport, -⟩
        refine ⟨fun number hnumber => ?_, fun _ => hkeeps.mp (BitVec.eq_of_toInt_eq ?_)⟩
        · cases hnumber
        · exact hport.trans hdefault.symm
      · rintro ⟨-, hhost⟩
        have hport : (addressed pton dev pointer server).serverPort.toInt = vsnfsPort :=
          (congrArg BitVec.toInt (hkeeps.mpr (hhost rfl))).trans hdefault
        exact ⟨hport, hsin.trans hport.symm⟩

theorem timeout_folded_iff (pton : Pton Word) (dev : DevName) (pointer : BitVec 64) (server : VsnfsServer)
    (rawData : Option (List Byte)) :
    (runFrom parseOption (addressed pton dev pointer server) (segments rawData)).timeout =
      (lastTimeout rawData).getD vsnfsTimeout ↔
      ∀ number, lastTimeout rawData = some number → number < 2 ^ 31 := by
  rw [parseOptions_timeout]
  cases lastTimeout rawData with
  | some number =>
      rw [Option.map_some, Option.getD_some, Option.getD_some, toInt_ofNat_eq_iff]
      simp
  | none =>
      refine iff_of_true rfl fun number hnumber => ?_
      cases hnumber

/-- **When the options fold as they are written.** -/
theorem mount_options_fold_iff (pton : Pton Word) (pointer : BitVec 64) (rawData : Option (List Byte))
    (dev : DevName) (server : VsnfsServer)
    (hsuccess : 0 ≤ (vsnfsParseMountOptions pton (some pointer) rawData dev server).1) :
    OptionsFolded pton pointer rawData dev server ↔ OptionsInRange rawData dev := by
  have haccepted := (vsnfsParseMountOptions_nonneg_iff pton pointer rawData dev server).mp hsuccess
  have hparse := fun other => vsnfsParseMountOptions_of_accepted haccepted pton pointer other server
  have hports := ports_folded_iff pton dev pointer server rawData rfl
  have htimeout := timeout_folded_iff pton dev pointer server rawData
  constructor
  · intro hfolded
    have hport := hfolded.port
    have hagree := hfolded.agree
    have htime := hfolded.timeout
    rw [hparse] at hport hagree htime
    obtain ⟨hrange, hkeeps⟩ := hports.mp ⟨hport, hagree⟩
    exact ⟨hrange, htimeout.mp htime, hkeeps⟩
  · rintro ⟨hrange, htime, hkeeps⟩
    obtain ⟨hport, hagree⟩ := hports.mpr ⟨hrange, hkeeps⟩
    refine ⟨?_, ?_, ?_, fun other hother => ?_, fun other front back port timeout hraw hother => ?_⟩
    · rw [hparse]
      exact hport
    · rw [hparse]
      exact htimeout.mpr htime
    · rw [hparse]
      exact hagree
    · rw [hparse, hparse, parseOptions_eq, parseOptions_eq, hother]
    · rw [hparse, hparse, parseOptions_eq, parseOptions_eq, hraw, hother, runFrom_reordered]

/-- The source `10.0.0.1:/a`. -/
def devOfPrivate : DevName :=
  ⟨['1', '0', '.', '0', '.', '0', '.', '1', ':', '/', 'a'].map charByte, by decide⟩

/-- The options `timeout=5,x,,port=0x801`. -/
def optionsInRange : List Byte :=
  ['t', 'i', 'm', 'e', 'o', 'u', 't', '=', '5', ',', 'x', ',', ',', 'p', 'o', 'r', 't', '=', '0', 'x', '8', '0',
    '1'].map charByte

theorem mount_options_fold_in_range :
    OptionsFolded onlyPrivate 0x1000 (some optionsInRange) devOfPrivate zeroedServer := by
  refine (mount_options_fold_iff onlyPrivate 0x1000 (some optionsInRange) devOfPrivate zeroedServer
    (by decide)).mpr ⟨?_, ?_, ?_⟩
  · intro number hnumber
    have hlast : lastPort (some optionsInRange) = some 2049 := by decide
    cases hlast.symm.trans hnumber
    decide
  · intro number hnumber
    have hlast : lastTimeout (some optionsInRange) = some 5 := by decide
    cases hlast.symm.trans hnumber
    decide
  · exact fun _ => .inl (by decide)

/-- The option `port=70000`. -/
def portOutOfRange : List Byte := ['p', 'o', 'r', 't', '=', '7', '0', '0', '0', '0'].map charByte

/-- With `port=70000` the structure says 70000 and the address says 4464. -/
theorem mount_port_fields_differ :
    0 ≤ (vsnfsParseMountOptions onlyPrivate (some 0x1000) (some portOutOfRange) devOfPrivate zeroedServer).1 ∧
      ¬ OptionsFolded onlyPrivate 0x1000 (some portOutOfRange) devOfPrivate zeroedServer ∧
      (vsnfsParseMountOptions onlyPrivate (some 0x1000) (some portOutOfRange) devOfPrivate
        zeroedServer).2.serverPort = 70000 ∧
      ntohs (vsnfsParseMountOptions onlyPrivate (some 0x1000) (some portOutOfRange) devOfPrivate
        zeroedServer).2.sinPort = 4464 := by
  refine ⟨by decide, fun hfolded => ?_, by decide, by decide⟩
  exact absurd hfolded.agree (by decide)

end Vsnfs
