import Nmsg.Proof.PresStep
import Nmsg.Sockspec

/-!
# Which socket specifications are parsed exactly

Everything in front of the first slash is copied into a buffer of 46 octets, and everything behind
it is scanned for a number. A string that denotes sockets is parsed to what it denotes, as far as
its address fits in the buffer. But whatever starts with a number behind the slash is accepted, with
anything behind the number and with no address at all in front.
-/

namespace Nmsg

/-! ### Scanning -/

theorem not_isDigit_dot : isDigit 46 = false := by decide

theorem digit_cases {c : UInt8} (hc : isDigit c = true) :
    Text.isSpace c = false ∧ c ≠ 45 ∧ c ≠ 43 := by
  rw [isDigit, Bool.and_eq_true, decide_eq_true_eq] at hc
  exact Text.not_space_of_digit hc.1

/-- Digits are scanned up to what is no digit. -/
theorem scanDecimal_digits {front rest : Bytes} {n : Nat} (hne : front ≠ [])
    (hdigits : ∀ c ∈ front, isDigit c = true) (hvalue : Text.digits 10 front = some n)
    (hstop : ∀ c ∈ rest.head?, isDigit c = false) :
    scanDecimal (front ++ rest) = some ((n : Int), rest) := by
  have htake : (front ++ rest).takeWhile isDigit = front := by
    rw [List.takeWhile_append_of_pos hdigits]
    cases rest with
    | nil => rw [List.takeWhile_nil, List.append_nil]
    | cons c rest =>
        rw [List.takeWhile_cons_of_neg (by rw [hstop c rfl]; exact Bool.false_ne_true),
          List.append_nil]
  have hdrop : (front ++ rest).dropWhile isDigit = rest := by
    rw [List.dropWhile_append_of_pos hdigits]
    cases rest with
    | nil => rfl
    | cons c rest =>
        exact List.dropWhile_cons_of_neg (by rw [hstop c rfl]; exact Bool.false_ne_true)
  obtain ⟨c, front, rfl⟩ := List.exists_cons_of_ne_nil hne
  obtain ⟨hspace, hminus, hplus⟩ := digit_cases (hdigits c List.mem_cons_self)
  rw [List.cons_append] at htake hdrop ⊢
  rw [scanDecimal, List.dropWhile_cons_of_neg (by rw [hspace]; exact Bool.false_ne_true)]
  simp only [if_neg hminus, if_neg hplus, htake, hdrop, hvalue]
  rfl

theorem storeInt_port {port : UInt32} (h : port.toNat ≤ 65535) :
    storeInt (port.toNat : Int) = .ok port := by
  have hmod : ((port.toNat : Int) % 2 ^ 32).toNat = port.toNat := by omega
  rw [storeInt, if_pos (by omega), hmod, UInt32.ofNat_toNat]

theorem scanPorts_one {ports : Bytes} {n : Int} {first : UInt32}
    (hscan : scanDecimal ports = some (n, [])) (hstore : storeInt n = .ok first) :
    scanPorts ports = .ok (some first, none) := by
  unfold scanPorts
  simp only [hscan, hstore]

theorem scanPorts_two {ports back : Bytes} {n m : Int} {first last : UInt32}
    (hscan : scanDecimal ports = some (n, 46 :: 46 :: back)) (hstore : storeInt n = .ok first)
    (hscan' : scanDecimal back = some (m, [])) (hstore' : storeInt m = .ok last) :
    scanPorts ports = .ok (some first, some last) := by
  unfold scanPorts
  simp only [hscan, hstore, hscan', hstore']

/-- **Ports are scanned.** -/
theorem scanPorts_range {ports : Bytes} {first last : UInt32} (h : IsPortRange ports first last) :
    ∃ stored, scanPorts ports = .ok (some first, stored) ∧ stored.getD first = last := by
  have hend : ∀ c ∈ ([] : Bytes).head?, isDigit c = false := nofun
  rcases h with ⟨⟨hne, hdigits, hvalue, hle⟩, rfl⟩ | ⟨front, back, rfl, hfirst, hlast⟩
  · have hscan := scanDecimal_digits hne hdigits hvalue hend
    rw [List.append_nil] at hscan
    exact ⟨none, scanPorts_one hscan (storeInt_port hle), rfl⟩
  · obtain ⟨hne, hdigits, hvalue, hle⟩ := hfirst
    obtain ⟨hne', hdigits', hvalue', hle'⟩ := hlast
    have hdot : ∀ c ∈ (46 :: 46 :: back).head?, isDigit c = false := by
      intro c hc
      cases hc
      exact not_isDigit_dot
    have hscan := scanDecimal_digits hne hdigits hvalue hdot
    have hscan' := scanDecimal_digits hne' hdigits' hvalue' hend
    rw [List.append_nil] at hscan'
    exact ⟨some last, scanPorts_two hscan (storeInt_port hle) hscan' (storeInt_port hle'), rfl⟩

/-- What starts with a number is not refused. -/
theorem scanPorts_of_number {ports : Bytes} {ended : Option UInt32}
    (hnumber : scanDecimal ports ≠ none) : scanPorts ports ≠ .ok (none, ended) := by
  rw [scanPorts]
  cases hscan : scanDecimal ports with
  | none => exact absurd hscan hnumber
  | some scanned =>
      obtain ⟨first, rest⟩ := scanned
      dsimp only
      cases storeInt first with
      | error e => exact nofun
      | ok first =>
          dsimp only
          split
          · split
            · exact nofun
            · split <;> exact nofun
          · exact nofun

theorem number_of_range {ports : Bytes} {first last : UInt32} (h : IsPortRange ports first last) :
    scanDecimal ports ≠ none := by
  intro hnone
  obtain ⟨stored, hscan, -⟩ := scanPorts_range h
  rw [scanPorts, hnone] at hscan
  cases hscan

/-! ### Parsing -/

section Parsing

variable {libc : Libc} {sockspec : Bytes}

/-- The string has a slash, and `addr` and `ports` are on its sides. -/
theorem slash_split (addr ports : Bytes) (haddr : (47 : UInt8) ∉ addr) :
    (addr ++ 47 :: ports).takeWhile (· != 47) = addr ∧
      (addr ++ 47 :: ports).dropWhile (· != 47) = 47 :: ports := by
  have hall : ∀ c ∈ addr, (c != 47) = true := by
    intro c hc
    rw [bne_iff_ne]
    rintro rfl
    exact haddr hc
  constructor
  · rw [List.takeWhile_append_of_pos hall, 
      List.takeWhile_cons_of_neg (p := (· != 47)) (by decide), List.append_nil]
  · rw [List.dropWhile_append_of_pos hall,
      List.dropWhile_cons_of_neg (p := (· != 47)) (by decide)]

theorem sockParseSockspec_slash (libc : Libc) {addr ports : Bytes} (haddr : (47 : UInt8) ∉ addr) :
    sockParseSockspec libc (addr ++ 47 :: ports) =
      if inet6Addrstrlen ≤ addr.length then .error .outOfBounds
      else
        match scanPorts ports with
        | .error e => .error e
        | .ok (none, _) =>
            .ok (.failure, ⟨(parseAddress libc addr).1, (parseAddress libc addr).2, none, none⟩)
        | .ok (some first, ended) =>
            .ok (.success, ⟨(parseAddress libc addr).1, (parseAddress libc addr).2, some first,
              some (ended.getD first)⟩) := by
  obtain ⟨htake, hdrop⟩ := slash_split addr ports haddr
  rw [sockParseSockspec, hdrop]
  dsimp only
  rw [htake]
  split
  · rfl
  · cases scanPorts ports with
    | error e => rfl
    | ok scanned =>
        obtain ⟨first, ended⟩ := scanned
        cases first with
        | none => rfl
        | some first => cases ended <;> rfl

theorem parseAddress_of_isAddress {af : AddressFamily} {addr : Bytes}
    (h : IsAddress libc af addr) : parseAddress libc addr = (some af, some addr) := by
  cases af with
  | inet6 => exact if_pos h
  | inet =>
      rw [parseAddress, if_neg (by rw [h.2]; exact Bool.false_ne_true), if_pos h.1]

/-- **A string that denotes sockets** is parsed to them, when its address fits in the buffer. -/
theorem sockParseSockspec_denotes {addr ports : Bytes} {af : AddressFamily} {first last : UInt32}
    (haddr : (47 : UInt8) ∉ addr) (hfits : addr.length < inet6Addrstrlen)
    (haf : IsAddress libc af addr) (hports : IsPortRange ports first last) :
    sockParseSockspec libc (addr ++ 47 :: ports) =
      .ok (.success, ⟨some af, some addr, some first, some last⟩) := by
  obtain ⟨stored, hscan, rfl⟩ := scanPorts_range hports
  rw [sockParseSockspec_slash libc haddr, if_neg (Nat.not_le.mpr hfits), hscan,
    parseAddress_of_isAddress haf]

/-- A string is taken apart at its first slash only. -/
theorem DenotesSockets.at_slash {addr ports : Bytes} {out : SockspecOut}
    (h : DenotesSockets libc (addr ++ 47 :: ports) out) (haddr : (47 : UInt8) ∉ addr) :
    ∃ af first last, IsAddress libc af addr ∧ IsPortRange ports first last ∧
      out = ⟨some af, some addr, some first, some last⟩ := by
  obtain ⟨af, addr', ports', first, last, hsplit, haddr', haf, hports, rfl⟩ := h
  obtain ⟨htake, hdrop⟩ := slash_split addr ports haddr
  obtain ⟨htake', hdrop'⟩ := slash_split addr' ports' haddr'
  rw [hsplit, htake'] at htake
  rw [hsplit, hdrop', List.cons.injEq] at hdrop
  rw [htake] at haf
  rw [hdrop.2] at hports
  exact ⟨af, first, last, haf, hports, by rw [htake]⟩

theorem mem_of_denotes {out : SockspecOut} (h : DenotesSockets libc sockspec out) :
    (47 : UInt8) ∈ sockspec := by
  obtain ⟨_, addr, ports, _, _, rfl, -⟩ := h
  exact List.mem_append_right _ List.mem_cons_self

end Parsing

/-- The string has no slash; or its slash is one of its first 46 octets, and what is behind it does
not start with a number, or the string denotes sockets. -/
def SockspecHandled (libc : Libc) (sockspec : Bytes) : Prop :=
  ∀ addr ports, sockspec = addr ++ 47 :: ports → (47 : UInt8) ∉ addr →
    addr.length < inet6Addrstrlen ∧
      (scanDecimal ports = none ∨ ∃ out, DenotesSockets libc sockspec out)

/-- **Socket specifications** are parsed exactly under this condition and no other. -/
theorem sockspec_parsed_iff (libc : Libc) (sockspec : Bytes) :
    ParsedExactly libc sockspec ↔ SockspecHandled libc sockspec := by
  constructor
  · rintro ⟨res, out, hparse, haccepted, -⟩ addr ports rfl haddr
    rw [sockParseSockspec_slash libc haddr] at hparse
    have hfits : addr.length < inet6Addrstrlen := by
      by_contra hlong
      rw [if_pos (Nat.not_lt.mp hlong)] at hparse
      cases hparse
    rw [if_neg (Nat.not_le.mpr hfits)] at hparse
    refine ⟨hfits, or_iff_not_imp_left.mpr fun hnumber => haccepted.mp ?_⟩
    cases hscan : scanPorts ports with
    | error e => rw [hscan] at hparse; cases hparse
    | ok scanned =>
        obtain ⟨first, ended⟩ := scanned
        cases first with
        | none => exact absurd hscan (scanPorts_of_number hnumber)
        | some first =>
            rw [hscan] at hparse
            cases hparse
            rfl
  · intro hhandled
    by_cases hslash : (47 : UInt8) ∈ sockspec
    · obtain ⟨addr, ports, rfl, haddr⟩ := List.eq_append_cons_of_mem hslash
      obtain ⟨hfits, hends⟩ := hhandled addr ports rfl haddr
      rcases hends with hnone | ⟨out, hdenotes⟩
      · have hrefused : ∀ out', ¬ DenotesSockets libc (addr ++ 47 :: ports) out' := by
          intro out' hdenotes
          obtain ⟨_, _, _, -, hports, -⟩ := hdenotes.at_slash haddr
          exact number_of_range hports hnone
        refine ⟨.failure, ⟨(parseAddress libc addr).1, (parseAddress libc addr).2, none, none⟩, ?_,
          iff_of_false nofun fun h => hrefused _ h.choose_spec,
          fun out' hdenotes => absurd hdenotes (hrefused out')⟩
        rw [sockParseSockspec_slash libc haddr, if_neg (Nat.not_le.mpr hfits), scanPorts, hnone]
      · obtain ⟨af, first, last, haf, hports, rfl⟩ := hdenotes.at_slash haddr
        have hparse := sockParseSockspec_denotes haddr hfits haf hports
        refine ⟨.success, _, hparse, iff_of_true rfl ⟨_, hdenotes⟩, ?_⟩
        intro out' hdenotes'
        obtain ⟨af', first', last', haf', hports', rfl⟩ := hdenotes'.at_slash haddr
        rw [sockParseSockspec_denotes haddr hfits haf' hports', Except.ok.injEq,
          Prod.mk.injEq] at hparse
        exact hparse.2.symm
    · have hnone : ∀ c ∈ sockspec, (c != 47) = true := by
        intro c hc
        rw [bne_iff_ne]
        rintro rfl
        exact hslash hc
      refine ⟨.failure, ⟨none, none, none, none⟩, ?_,
        iff_of_false nofun fun h => hslash (mem_of_denotes h.choose_spec),
        fun out' hdenotes => absurd (mem_of_denotes hdenotes) hslash⟩
      rw [sockParseSockspec, List.dropWhile_eq_nil_iff.mpr hnone]

/-- **A port is enough** for a string to be accepted, whatever is in front of its slash: `x/1` is,
and neither `af` nor `addr` is set. -/
theorem no_address_accepted :
    sockParseSockspec plainLibc [120, 47, 49] = .ok (.success, ⟨none, none, some 1, some 1⟩) ∧
      ¬ ParsedExactly plainLibc [120, 47, 49] := by
  have hparse : sockParseSockspec plainLibc [120, 47, 49] =
      .ok (.success, ⟨none, none, some 1, some 1⟩) := rfl
  refine ⟨hparse, ?_⟩
  rintro ⟨res, out, hok, haccepted, -⟩
  rw [hparse] at hok
  cases hok
  obtain ⟨_, af, addr, _, _, _, _, -, haf, -, -⟩ := haccepted.mp rfl
  cases af with
  | inet => exact Bool.false_ne_true haf.1
  | inet6 => exact Bool.false_ne_true haf

end Nmsg
