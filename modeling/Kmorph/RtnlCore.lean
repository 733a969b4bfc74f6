import Kmorph.ApplyCore
import Kmorph.Extents

/-!
Executable model of the messages of `lib/rtnl.c` as bytes. A request is the 512 bytes
of its buffer; an attribute is its offset in the message.
-/

namespace Kmorph

open Extents Records

namespace Rtnl

def HDRLEN : ℕ := align4 16
def RTATTR_SIZE : ℕ := 4

def nlmsgLen (h : List UInt8) : ℕ := field h 0 4

def rtnlReqInit (type flags : ℕ) (body : List UInt8) : List UInt8 :=
  let buf := List.replicate RTNL_REQ_MAX 0
  let buf := writeAt 0 buf 4 (encodeField (2, type))
  let buf := writeAt 0 buf 6 (encodeField (2, NLM_F_REQUEST ||| flags))
  let buf := writeAt 0 buf HDRLEN body
  writeAt 0 buf 0 (encodeField (4, HDRLEN + align4 body.length))

def rtnlReqAttr (buf : List UInt8) (type : ℕ) (data : List UInt8) : Int × List UInt8 :=
  let a := nlmsgLen buf
  let alen := align4 RTATTR_SIZE + data.length
  if nlmsgLen buf + align4 alen > RTNL_REQ_MAX then (-E2BIG, buf)
  else
    let buf := writeAt 0 buf (a + 2) (encodeField (2, type))
    let buf := writeAt 0 buf a (encodeField (2, alen))
    let buf := writeAt 0 buf (a + align4 RTATTR_SIZE) data
    (0, writeAt 0 buf 0 (encodeField (4, nlmsgLen buf + align4 alen)))

/-- The loop of `rtnl_attr`, from offset `p` on. -/
def attrLoop (h : List UInt8) (type stop p : ℕ) : Option ℕ :=
  if p + RTATTR_SIZE ≤ stop then
    let len := field h p 2
    if len < RTATTR_SIZE ∨ p + len > stop then none
    else if field h (p + 2) 2 = type then some p
    else attrLoop h type stop (p + align4 len)
  else none
termination_by stop - p
decreasing_by
  have : ¬ (field h p 2 < RTATTR_SIZE ∨ p + field h p 2 > stop) := ‹_›
  simp only [RTATTR_SIZE, align4] at *
  omega

def rtnlAttr (h : List UInt8) (hdrlen type : ℕ) : Option ℕ :=
  attrLoop h type (nlmsgLen h) (HDRLEN + align4 hdrlen)

def rtnlAttrLen (h : List UInt8) (a : ℕ) : ℕ := field h a 2 - align4 RTATTR_SIZE

/-- The bytes `rtnl_attr_data` points to. -/
def rtnlAttrData (h : List UInt8) (a : ℕ) : List UInt8 :=
  cells h (a + align4 RTATTR_SIZE) (rtnlAttrLen h a)

end Rtnl

end Kmorph
