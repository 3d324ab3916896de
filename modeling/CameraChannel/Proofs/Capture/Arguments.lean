import CameraChannel.Capture.Tcpdump
import CameraChannel.Proofs.Decimal.Digits
import CameraChannel.Proofs.Text.Words

/-!
The arguments that a capture tool is started with. Main statement: of a request they show who runs
it, the interface and the output path, and the words of its filter; so they show the host and the
ports as well, as long as the host is one word.
-/
namespace CameraChannel

theorem Digits.text_inj {m n : Nat} (h : text m = text n) : m = n := by
  have hd : decimal m = decimal n := String.ofList_injective h
  have hm := read?_decimal m
  rw [hd, read?_decimal] at hm
  exact (Option.some.inj hm).symm

namespace Capture

namespace Filter

/-- The words from the number of the first port to the parenthesis behind the last. -/
def numbers (p : UInt16) : List UInt16 → List String
  | [] => [Digits.text p.toNat ++ ")"]
  | q :: ports => Digits.text p.toNat :: "or" :: "port" :: numbers q ports

/-- The words of an expression behind the host. -/
def portWords : List UInt16 → List String
  | [] => []
  | p :: ports => "and" :: "(port" :: numbers p ports

theorem length_numbers (p : UInt16) (ports : List UInt16) :
    (numbers p ports).length = 3 * ports.length + 1 := by
  induction ports generalizing p with
  | nil => rfl
  | cons q ports ih =>
    simp only [numbers, List.length_cons, ih]
    omega

theorem length_portWords (ports : List UInt16) : (portWords ports).length = 3 * ports.length := by
  cases ports with
  | nil => rfl
  | cons p ports =>
    simp only [portWords, List.length_cons, length_numbers]
    omega

theorem numbers_inj {p q : UInt16} {ports ports' : List UInt16}
    (h : numbers p ports = numbers q ports') : p = q ∧ ports = ports' := by
  induction ports generalizing p q ports' with
  | nil =>
    cases ports' with
    | nil =>
      have ht := String.append_left_inj _ |>.1 (List.singleton_inj.1 h)
      exact ⟨UInt16.toNat_inj.1 (Digits.text_inj ht), rfl⟩
    | cons q' ports' => simp [numbers] at h
  | cons p' ports ih =>
    cases ports' with
    | nil => simp [numbers] at h
    | cons q' ports' =>
      simp only [numbers, List.cons.injEq, true_and] at h
      obtain ⟨rfl, rfl⟩ := ih h.2
      exact ⟨UInt16.toNat_inj.1 (Digits.text_inj h.1), rfl⟩

theorem portWords_inj {ports ports' : List UInt16} (h : portWords ports = portWords ports') :
    ports = ports' := by
  cases ports with
  | nil =>
    cases ports' with
    | nil => rfl
    | cons q ports' => simp [portWords] at h
  | cons p ports =>
    cases ports' with
    | nil => simp [portWords] at h
    | cons q ports' =>
      simp only [portWords, List.cons.injEq, true_and] at h
      obtain ⟨rfl, rfl⟩ := numbers_inj h
      rfl

theorem not_blank_of_digit {c : Char} (h : (Digits.value? c).isSome) : Blank.isBlank c = false := by
  rw [Digits.value?] at h
  split at h
  · next hc =>
    have hlo : 48 ≤ c.toNat := hc.1
    have hhi : c.toNat ≤ 57 := hc.2
    simp only [Blank.isBlank, Bool.or_eq_false_iff, Bool.and_eq_false_iff, decide_eq_false_iff_not,
      beq_eq_false_iff_ne]
    omega
  · cases h

theorem not_blank_of_mem_text (n : Nat) :
    ∀ c ∈ (Digits.text n).toList, Blank.isBlank c = false := by
  intro c hc
  rw [Digits.text, String.toList_ofList] at hc
  exact not_blank_of_digit (Digits.isSome_value?_of_readFrom (Digits.readFrom_decimal n) c hc)

theorem isWord_number (n : Nat) : Blank.IsWord (Digits.text n) :=
  ⟨by simp [Digits.text, Digits.decimal_ne_nil], not_blank_of_mem_text n⟩

theorem isWord_last (n : Nat) : Blank.IsWord (Digits.text n ++ ")") := by
  refine ⟨by simp, fun c hc => ?_⟩
  rw [String.toList_append] at hc
  obtain hc | hc := List.mem_append.1 hc
  · exact not_blank_of_mem_text n c hc
  · rw [List.mem_singleton.1 hc]
    decide

/-- Behind its opening, each port of an expression gives its words. -/
theorem words_ports {opening : String} (h : Blank.IsWord (opening ++ "port")) (p : UInt16)
    (ports : List UInt16) :
    Blank.words (opening ++ (" or ".intercalate ((p :: ports).map portTerm) ++ ")")) =
      (opening ++ "port") :: numbers p ports := by
  induction ports generalizing p opening with
  | nil =>
    have hparts : opening ++ (" or ".intercalate ([p].map portTerm) ++ ")") =
        (opening ++ "port") ++ " " ++ (Digits.text p.toNat ++ ")") := by
      apply String.toList_injective
      simp [portTerm]
    rw [hparts, Blank.words_space, h.words_eq, (isWord_last p.toNat).words_eq]
    rfl
  | cons q ports ih =>
    have hparts : opening ++ (" or ".intercalate ((p :: q :: ports).map portTerm) ++ ")") =
        (opening ++ "port") ++ " " ++ (Digits.text p.toNat ++ " " ++ ("or" ++ " " ++
          ("" ++ (" or ".intercalate ((q :: ports).map portTerm) ++ ")")))) := by
      apply String.toList_injective
      simp [portTerm, String.intercalate_cons_cons]
    have hor : Blank.IsWord "or" := by decide
    have hport : Blank.IsWord ("" ++ "port") := by decide
    rw [hparts, Blank.words_space, Blank.words_space, Blank.words_space, ih hport, h.words_eq,
      (isWord_number p.toNat).words_eq, hor.words_eq]
    rfl

/-- The arguments of a filter are the words of its host between those of the expression. -/
theorem arguments_eq (f : Filter) :
    f.arguments = "host" :: (Blank.words f.host ++ portWords f.ports) := by
  obtain ⟨host, ports⟩ := f
  have hhost : Blank.IsWord "host" := by decide
  cases ports with
  | nil =>
    have hparts : expression ⟨host, []⟩ = "host" ++ " " ++ host := by
      apply String.toList_injective
      simp [expression]
    rw [arguments, hparts, Blank.words_space, hhost.words_eq, portWords, List.append_nil]
    rfl
  | cons p ports =>
    have hparts : expression ⟨host, p :: ports⟩ = "host" ++ " " ++ (host ++ " " ++ ("and" ++ " " ++
        ("(" ++ (" or ".intercalate ((p :: ports).map portTerm) ++ ")")))) := by
      apply String.toList_injective
      simp [expression]
    have hand : Blank.IsWord "and" := by decide
    have hport : Blank.IsWord ("(" ++ "port") := by decide
    rw [arguments, hparts, Blank.words_space, Blank.words_space, Blank.words_space,
      words_ports hport, hhost.words_eq, hand.words_eq]
    rfl

/-- The arguments tell apart filters whose hosts have equally many words. -/
theorem eq_of_arguments {f f' : Filter} (h : f.arguments = f'.arguments)
    (hlen : (Blank.words f.host).length = (Blank.words f'.host).length) :
    Blank.words f.host = Blank.words f'.host ∧ f.ports = f'.ports := by
  rw [arguments_eq, arguments_eq, List.cons.injEq] at h
  obtain ⟨hhost, hports⟩ := List.append_inj h.2 hlen
  exact ⟨hhost, portWords_inj hports⟩

theorem arguments_inj {f f' : Filter} (hw : Blank.IsWord f.host) (hw' : Blank.IsWord f'.host)
    (h : f.arguments = f'.arguments) : f = f' := by
  obtain ⟨host, ports⟩ := f
  obtain ⟨host', ports'⟩ := f'
  have hlen : (Blank.words host).length = (Blank.words host').length := by
    rw [hw.words_eq, hw'.words_eq]
    rfl
  obtain ⟨hhost, hports⟩ := eq_of_arguments h hlen
  rw [hw.words_eq, hw'.words_eq] at hhost
  rw [show host = host' from List.singleton_inj.1 hhost, show ports = ports' from hports]

/-- The host is the second argument, with those of the ports behind it, just if it is one word. -/
theorem host_second_iff {f : Filter} :
    (f.arguments[1]? = some f.host ∧ f.arguments.length = 3 * f.ports.length + 2) ↔
      Blank.IsWord f.host := by
  rw [arguments_eq, List.length_cons, List.length_append, length_portWords]
  constructor
  · rintro ⟨hsecond, hlen⟩
    obtain ⟨w, hw⟩ : ∃ w, Blank.words f.host = [w] := List.length_eq_one_iff.1 (by omega)
    rw [hw] at hsecond
    obtain rfl : w = f.host := Option.some.inj hsecond
    exact Blank.words_eq_self_iff.1 hw
  · intro h
    rw [h.words_eq]
    exact ⟨rfl, by simp only [List.length_singleton]; omega⟩

end Filter

namespace Tcpdump

variable {t : Tcpdump} {r r' : Request} {output output' : String}

/-- What stands before the filter is told apart with `sudo` and without. -/
theorem eq_of_commandLine (h : t.commandLine r output = t.commandLine r' output') :
    r.useSudo = r'.useSudo ∧ r.interface = r'.interface ∧ output = output' ∧
      r.filter.arguments = r'.filter.arguments := by
  unfold commandLine at h
  cases hs : r.useSudo with
  | true =>
    cases hs' : r'.useSudo with
    | true => simpa [hs, hs'] using h
    | false =>
      -- `sudo` would be the program, and the program the first switch
      rw [hs, hs'] at h
      obtain ⟨hfirst, hsecond⟩ := List.cons.inj h
      exact absurd (hfirst.trans (List.cons.inj hsecond).1) (by decide)
  | false =>
    cases hs' : r'.useSudo with
    | true =>
      rw [hs, hs'] at h
      obtain ⟨hfirst, hsecond⟩ := List.cons.inj h
      exact absurd ((List.cons.inj hsecond).1.trans hfirst) (by decide)
    | false => simpa [hs, hs'] using h

/-- Behind the output path stand `host`, the words of the host and three more for each port. So the
host is the second of them, with two or `3 * n + 2` in all, just if it is one word. Equal command
lines come from the same use of `sudo`, interface and output path; if their hosts have equally many
words, from the same words and ports, and so from the same host if each is one word. -/
theorem commandLine_exact (t : Tcpdump) (r r' : Request) (output output' : String) :
    t.commandLine r output = (if r.useSudo then ["sudo", t.program] else [t.program]) ++
      ["-v", "-i", r.interface, "-w", output] ++ r.filter.arguments ∧
    r.filter.arguments =
      "host" :: (Blank.words r.filter.host ++ Filter.portWords r.filter.ports) ∧
    (Filter.portWords r.filter.ports).length = 3 * r.filter.ports.length ∧
    (r.filter.arguments[1]? = some r.filter.host ∧
      r.filter.arguments.length = 3 * r.filter.ports.length + 2 ↔ Blank.IsWord r.filter.host) ∧
    (t.commandLine r output = t.commandLine r' output' →
      r.useSudo = r'.useSudo ∧ r.interface = r'.interface ∧ output = output' ∧
      ((Blank.words r.filter.host).length = (Blank.words r'.filter.host).length →
        Blank.words r.filter.host = Blank.words r'.filter.host ∧ r.filter.ports = r'.filter.ports) ∧
      (Blank.IsWord r.filter.host → Blank.IsWord r'.filter.host → r.filter = r'.filter)) := by
  refine ⟨?_, Filter.arguments_eq r.filter, Filter.length_portWords r.filter.ports,
    Filter.host_second_iff, fun h => ?_⟩
  · rw [commandLine]
    split <;> rfl
  · obtain ⟨hsudo, hinterface, houtput, harguments⟩ := eq_of_commandLine h
    exact ⟨hsudo, hinterface, houtput, Filter.eq_of_arguments harguments,
      fun hw hw' => Filter.arguments_inj hw hw' harguments⟩

/-- A capture of one host's traffic, by its text. -/
def hostRequest (host : String) (ports : List UInt16) : Request where
  interface := "any"
  duration := 10000
  filter := ⟨host, ports⟩
  directory := "/tmp"
  useSudo := false

/-- A host of several words is several arguments, and can pass for another host with ports. -/
theorem commandLine_wordy :
    ({} : Tcpdump).commandLine (hostRequest "10.0.0.1 and (port 80)" []) "/tmp/x.pcap" =
      ["tcpdump", "-v", "-i", "any", "-w", "/tmp/x.pcap",
        "host", "10.0.0.1", "and", "(port", "80)"] ∧
    ({} : Tcpdump).commandLine (hostRequest "10.0.0.1" [80]) "/tmp/x.pcap" =
      ["tcpdump", "-v", "-i", "any", "-w", "/tmp/x.pcap",
        "host", "10.0.0.1", "and", "(port", "80)"] ∧
    hostRequest "10.0.0.1 and (port 80)" [] ≠ hostRequest "10.0.0.1" [80] := by
  refine ⟨by decide, by decide, by decide⟩

end Tcpdump

end Capture

end CameraChannel
