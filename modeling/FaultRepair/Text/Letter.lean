/-
# Letters, digits and printable characters beyond ASCII

Tables of Unicode 15.0 properties as runs: so many code points without the property,
so many with it, and so on. Where every other code point has it, a zero stands before
the number of those that do. Only code points from 128 on are listed; the ASCII part
of each property is stated by the function that uses the table.

A number is written with one last digit, from `0` to `o`, that counts to 64, after the
decimal digits `p` to `y` of how many times 64 there are.
-/

import FaultRepair.Text.Rune

namespace FaultRepair.Text

/-- The numbers written in a table, with so many times 64 read of the first. -/
def runsAfter (high : Nat) : List Char → List Nat
  | [] => []
  | c :: cs =>
    if c < 'p' then (64 * high + (c.toNat - '0'.toNat)) :: runsAfter 0 cs
    else runsAfter (10 * high + (c.toNat - 'p'.toNat)) cs

def runsOf (table : List String) : List Nat := runsAfter 0 (table.flatMap (·.toList))

/-- Code points of the letter categories. -/
def letterRuns : List Nat := runsOf
  ["rZ1:1415G1O1w:4<>57111r151224116113111D1qC1r;8rV1V216Yq7K44][S21qS11?272:321@11NMqI;1HQ92415F4",
   "19131GI7;5H16AZjf31B17:?@48222F17113431@1=213>2:186422F17121212O411C3@9131F17121531B1?2G1;8222",
   "F17121531N213?1A116331432111232333<F1d8131G1@31J32122N148131G1:1531O212?2A9131Y21@15383H65B3H1",
   "91127j`12<7j211151H111:12912511E4P1o81TK5qc[D1@6443132734=<1AV11512[1u=142711142Y142Q142711142",
   "?1i142q3U@@qF263y\\2A1J5q;687B=C>B>=13?dS141q3qI752R115q6:OaN25;\\4JfG9eqB1qM_A8fN=2:\\JTY3:T2",
   "97[23Y41612315s0q0tF262V2628031O2e1711331734264=5317qd1=1@=qU1412:11356102141;245541d2tqksU643",
   "2<V11512h71@G9717171717171717q@1wE2Z5524qF631qJ145[1qNAP`@x0qps0q0stv=q3^2t=3@:2D_@O2q6a92qW2q",
   "0521115H@13141GMd>bn63112;L:GIM7_L1@51::51YG318DG313b1132252111H32;73<6262697171[1>6qcMqwtT<G4",
   "aqsr4u^2qZV7<5511:1=151112121q\\Qu[Bq02fX<qd51r7TJ6J;qI36262623S<1J1C121?2>Rqkv5M3a_P=D186V:N2",
   "T48`rNBT4T4X8d<;1?17121;1?1712q3tg9F:8H61Z19q56211\\12312G:G9Oq1C12:F:Jq6h62q01?4131MZM3MS81LK",
   "f:F:C=Bq^q9gc=c=TuLZ62q>M:18FZB^EKG<ei221=]PIJTM1218S31<`>4E111SB1IC2o711141?1:7_V8222F1712153",
   "1B1<5rNeB4D3N`D211rh_Y4T`D1k[=1q7KU7ri\\qdq0O82128121H?111qN82W@111L1:X71E1;^C1Bq9t791UA1aNq`7",
   "121VE1I6121P>1u7C?11=1Rql1q?qtJsVs4tq<qQ?qv_B6vriy7qstixi7OAq?ANB`@4OE5Cqp`q0r0q;51q2=q0211Lyu",
   "h8qyFZ9qsyW417121tS?1M321>48v<sv4q[5=397:ysVqE1q7122122241<11171q11428171L141511371uD2I1I1O1I1",
   "O1I1O1I1O1I18rxdO66t5nrB]:7@1u1NB\\wTLqqd714121?1s5kq471qxd41K1211211:140261410213121121041211",
   "24171414111:1A53151Avy4vvwPPvti7sN2yp2>qqvatxOxNrsRww;5vuP"]

/-- Code points of the decimal digit category. -/
def digitRuns : List Nat := runsOf
  ["ruP:r6:s6:vL:qf:qf:qf:qf:qf:qf:qf:qf:qf:qP:qf:q6:tF:q6:ry6:V:t\\:r0:rV:6:rf:qF:r6:6:uuq6:qpV:V",
   ":s6:F:qF:vF:ssrF:rr6:st6:qr\\:r0:l:r@:tF:uF:qf:uf:qV:qV:vV:qV:qqf:sf:q6:vV:spp6:qF:r6:tssdbsw0",
   ":vV:wf:qwF:wtF:"]

/-- Code points of the upper-case letter category. -/
def upperRuns : List Nat := runsOf
  ["s0G17Q10K2107210F1202321112132412133212021211211213111231712121210721082121130M7212211404tQ111",
   "3181611311121A19S123310;5121122c`10@910J1206210_2Vtu9V1151qqBqFstJ[23u010q:910`9886:88886;1038",
   "8q84<4<4<5;4t61413323213561021424:251m1tql``1132102141121830a811141txu=10FC10=r7106310N:111120",
   "44111211131091515071411615111L1stx[Jqy5Xr8TrL;1?1712rwZctw]Pstr0PtpvPJJJJJJ11221222418JJJ21428",
   "17K214151137KJJJJJJJJJJJNIQIQIQIQIQ1vxeR"]

/-- Code points of the letter, mark, number, punctuation and symbol categories. -/
def graphicRuns : List Nat := runsOf
  ["rQ<1qq:2647111D1v=1V2b231g8K46AF1s01`2k2qU>k2a2?1L211;5O9q:1rQ18222F1711342922248142152I231642",
   "2F17121212211542233174117A:319131F1712152:131321?42<771318222F1712152922237342152B:21633143211",
   "1232333<4533142161>E5=131G1@291314721321242:7F131G1:152913147262142:13<=131c13164@2J131B3H1911",
   "27314611186:23<j4MU211151H111G2511171:24Pq81T4W1T1?1=Us611512ui142711142Y142Q142711142?1i142q3",
   "2P3J6qF262qp01L3qI7F9H9D<=1312<qN2:6:6>1;6qI7[5q6:O1<4<413Z25;\\4J6;3n2q11M2;6:6>2Oaq=3_1qd8l3",
   "?3l7[2;8[5xF262V2628031O2e1?1>261C2319AH8_A22K1=3Q?Q?r<4qpGI;ErxD2P1uM5]11512h72>H971717171717",
   "17171qnRJ1qI<sFJ<5o1qF2qW5[1qN1qD<_1tuw]3g9uLDrh8s;521115Hk3:6h8q68<6qd;N3q>1;4Q1g9>2:2qWHL:62",
   "62697171l4qn2:6qwtT<G4aqsr4u^2qZV7<55J151112121qm@vm2f71PZ6c1C14451r74rn362626233717=22<1J1C12",
   "1?2>Rqk534]3qH1=31_^r2M3a?L4T9N5[5N1U4>ZrN2:6T4T4X8d;<1?17121;1?1712q3tg9F:8H61Z19q56211\\1231",
   "2G1q889`C125Q3K51q0h4D2b1258131M234:797q0PW4<9f3M2K5J74<7q@q9gc=c7^8:tVO1Z1322q;[8ZFJVLDG9q>4T",
   "9n15=I7:6e1B8W9qP1D;B1_n711141?1;6k5:6418222F1712151:22232161572735r;qL15Nq88:rVf2VRq5;:6=Cj6:",
   "fK2?4GrilqTqC<82128121N122<9:q682^2;Kq88qC=q97:sf91]1>:M3P2F1>q97121\\3112198:66121U12167:tfI7",
   "A1Y3LqF1?b=qtKqVq_15;s4tq<qS=qv_AFvrZy7qstixi7O1:4qA1:6N26:q6::171E5Cqp`qKqUq;4i7Aq05;2>yuh8qy",
   "FZ9qsyW417121tS?1M321>48v<sv4q[5=397:24wsP^2G9qdlsf:W2q:8q`Eq6qjD<D<qG9Ir7qE1q7122122241<11171",
   "q11428171L141511371uD2tT2qpn?51?qw@O66sE71A2712155nQ1q`]3>2:42u0OAj51w@ZqqV714121?1s52@Yq<4:42",
   "qrAq4q<ms241K1211211:14026141021312112104121124171414111:1A53151Ad2t>\\4qT<?2?1?1U:r^hM=\\4972",
   ">6rJquH4A3=3qg4qO6<41?<4h8:6X8N22q>uD<>2=397^178>49797rC1gU:qv6vvwPPvti7sN2yp2>qqvatxOxNrsRww;",
   "5vuPqqqru@s`"]

/-- Does the code point lie in a run that counts? -/
def inRuns : List Nat → Rune → Bool
  | 0 :: pairs :: runs, r => if r < 2 * pairs then r % 2 == 1 else inRuns runs (r - 2 * pairs)
  | outside :: inside :: runs, r =>
    outside ≤ r && (r < outside + inside || inRuns runs (r - outside - inside))
  | _, _ => false

def isLetterRune (r : Rune) : Bool :=
  if r < 128 then (65 ≤ r && r ≤ 90) || (97 ≤ r && r ≤ 122) else inRuns letterRuns r

def isDigitRune (r : Rune) : Bool :=
  if r < 128 then 48 ≤ r && r ≤ 57 else inRuns digitRuns r

def isUpperRune (r : Rune) : Bool :=
  if r < 128 then 65 ≤ r && r ≤ 90 else inRuns upperRuns r

/-- Is this a character that leaves a mark when shown, or the ASCII blank? -/
def isPrintRune (r : Rune) : Bool :=
  if r < 128 then 32 ≤ r && r ≤ 126 else inRuns graphicRuns r

end FaultRepair.Text
