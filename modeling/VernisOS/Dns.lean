import VernisOS.DhcpCodec

/-!
# The DNS client

The query that `dns_resolve` of `kernel/net/udp.c` sends, and what it makes of a datagram that it
receives while it waits : `dns_skip_name`, the loop over the questions and the loop over the
answers, with the offsets that they read. An offset of -1 is `none`.
-/

open Bytes Loop

namespace VernisOS

/-! ## Queries -/

/-- The message that is being built, where the next byte goes, and the label that is open. -/
structure DnsQuery where
  pkt : ℕ → UInt8
  o : ℕ
  labelStart : ℕ
  labelLen : ℕ

namespace DnsQuery

/-- Append a byte. -/
def push (q : DnsQuery) (b : UInt8) : DnsQuery :=
  { q with pkt := Function.update q.pkt q.o b, o := q.o + 1 }

/-- The end of a label : its length is filled in. -/
def endLabel (q : DnsQuery) : Option DnsQuery :=
  if q.labelLen = 0 ∨ 63 < q.labelLen then none
  else some { q with pkt := Function.update q.pkt q.labelStart (UInt8.ofNat q.labelLen) }

/-- The loop that turns a dotted name into labels; `none` if the name is refused. -/
def qname : List UInt8 → DnsQuery → Option DnsQuery
  | [], q => q.endLabel
  | c :: rest, q =>
    if c = 46 then
      q.endLabel.bind fun q => qname rest { q with labelStart := q.o, o := q.o + 1, labelLen := 0 }
    else if 500 ≤ q.o then none
    else qname rest { q.push c with labelLen := q.labelLen + 1 }

/-- The root label, QTYPE and QCLASS. -/
def finish (q : DnsQuery) : DnsQuery :=
  ((((q.push 0).push 0).push 1).push 0).push 1

end DnsQuery

/-- The query for a name, in the buffer `pkt` with the header already there; `none` if the name
is refused. -/
def dnsQuery (pkt : ℕ → UInt8) (name : List UInt8) : Option DnsQuery :=
  if name = [] then none else (DnsQuery.qname name ⟨pkt, 13, 12, 0⟩).map DnsQuery.finish

/-! ## Replies -/

/-- Two bytes of a message, in network order. -/
def be16At (pkt : ℕ → UInt8) (o : ℕ) : UInt16 :=
  ofBe16 (pkt o) (pkt (o + 1))

/-- One turn of the loop of `dns_skip_name`. -/
def dnsSkipTurn (pkt : ℕ → UInt8) (len : ℕ) (o : ℕ) : Logged ℕ (ℕ ⊕ Option ℕ) :=
  if o < len then
    let l := pkt o
    if l = 0 then reads [o] (.inr (some (o + 1)))
    else if l &&& 0xC0 = 0xC0 then reads [o] (.inr (some (o + 2)))
    else reads [o] (.inl (o + 1 + l.toNat))
  else reads [] (.inr none)

/-- `dns_skip_name`. -/
def dnsSkipName (pkt : ℕ → UInt8) (len n o : ℕ) : Logged ℕ (Option ℕ) :=
  run (dnsSkipTurn pkt len) n o

/-- One turn of the loop over the `qd` questions, at question `q` and an offset. -/
def dnsQuestionTurn (pkt : ℕ → UInt8) (len qd n : ℕ) :
    ℕ × Option ℕ → Logged ℕ ((ℕ × Option ℕ) ⊕ Option ℕ)
  | (_, none) => reads [] (.inr none)
  | (q, some off) =>
    if q < qd ∧ 0 < off then
      bind (dnsSkipName pkt len n off) fun off => reads [] (.inl (q + 1, off.map (· + 4)))
    else reads [] (.inr (some off))

/-- One turn of the loop over the `an` answers, at answer `a` and an offset. The result is the
address, if one is found. -/
def dnsAnswerTurn (pkt : ℕ → UInt8) (len an n : ℕ) :
    ℕ × ℕ → Logged ℕ ((ℕ × ℕ) ⊕ Option UInt32)
  | (a, off) =>
    if a < an ∧ 0 < off ∧ off + 10 ≤ len then
      bind (dnsSkipName pkt len n off) fun off =>
        match off with
        | none => reads [] (.inr none)
        | some off =>
          if len < off + 10 then reads [] (.inr none)
          else
            let type := be16At pkt off
            let rdlen := be16At pkt (off + 8)
            let data := off + 10
            bind (reads [off, off + 1, off + 8, off + 9] ()) fun _ =>
              if type = 1 ∧ rdlen = 4 ∧ data + 4 ≤ len then
                reads (four data) (.inr (some (be32At pkt data)))
              else reads [] (.inl (a + 1, data + rdlen.toNat))
    else reads [] (.inr none)

/-- What the body of the waiting loop does with a datagram of `len` bytes : `none` if it is no
reply to the query `qid`, else the address or that there is none. -/
def dnsReply (pkt : ℕ → UInt8) (len : ℕ) (qid : UInt16) (n : ℕ) :
    Logged ℕ (Option (Option UInt32)) :=
  if len ≤ 12 then reads [] none
  else if pkt 0 ≠ (qid >>> 8).toUInt8 then reads [0] none
  else if pkt 1 ≠ qid.toUInt8 then reads [0, 1] none
  else
    let qd := be16At pkt 4
    let an := be16At pkt 6
    bind (reads [0, 1, 4, 5, 6, 7] ()) fun _ =>
      bind (run (dnsQuestionTurn pkt len qd.toNat n) n (0, some 12)) fun off =>
        match off with
        | none => reads [] (some none)
        | some off =>
          bind (run (dnsAnswerTurn pkt len an.toNat n) n (0, off)) fun ip => reads [] (some ip)

end VernisOS
