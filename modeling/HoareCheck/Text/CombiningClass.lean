/-!
# Combining classes

A mark that is written around the character before it has a class that is not
zero.  Marks of different classes do not touch each other, so their order has no
meaning; all other characters have class zero.  The table is that of Unicode 14.
-/

namespace HoareCheck.Text

/-- Inclusive ranges of code points with the class of their characters. -/
def combiningClasses : List (Nat × Nat × Nat) :=
  [(768,788,230),(789,789,232),(790,793,220),(794,794,232),(795,795,216),(796,800,220),
   (801,802,202),(803,806,220),(807,808,202),(809,819,220),(820,824,1),(825,828,220),(829,836,230),
   (837,837,240),(838,838,230),(839,841,220),(842,844,230),(845,846,220),(848,850,230),
   (851,854,220),(855,855,230),(856,856,232),(857,858,220),(859,859,230),(860,860,233),
   (861,862,234),(863,863,233),(864,865,234),(866,866,233),(867,879,230),(1155,1159,230),
   (1425,1425,220),(1426,1429,230),(1430,1430,220),(1431,1433,230),(1434,1434,222),(1435,1435,220),
   (1436,1441,230),(1442,1447,220),(1448,1449,230),(1450,1450,220),(1451,1452,230),(1453,1453,222),
   (1454,1454,228),(1455,1455,230),(1456,1456,10),(1457,1457,11),(1458,1458,12),(1459,1459,13),
   (1460,1460,14),(1461,1461,15),(1462,1462,16),(1463,1463,17),(1464,1464,18),(1465,1466,19),
   (1467,1467,20),(1468,1468,21),(1469,1469,22),(1471,1471,23),(1473,1473,24),(1474,1474,25),
   (1476,1476,230),(1477,1477,220),(1479,1479,18),(1552,1559,230),(1560,1560,30),(1561,1561,31),
   (1562,1562,32),(1611,1611,27),(1612,1612,28),(1613,1613,29),(1614,1614,30),(1615,1615,31),
   (1616,1616,32),(1617,1617,33),(1618,1618,34),(1619,1620,230),(1621,1622,220),(1623,1627,230),
   (1628,1628,220),(1629,1630,230),(1631,1631,220),(1648,1648,35),(1750,1756,230),(1759,1762,230),
   (1763,1763,220),(1764,1764,230),(1767,1768,230),(1770,1770,220),(1771,1772,230),(1773,1773,220),
   (1809,1809,36),(1840,1840,230),(1841,1841,220),(1842,1843,230),(1844,1844,220),(1845,1846,230),
   (1847,1849,220),(1850,1850,230),(1851,1852,220),(1853,1853,230),(1854,1854,220),(1855,1857,230),
   (1858,1858,220),(1859,1859,230),(1860,1860,220),(1861,1861,230),(1862,1862,220),(1863,1863,230),
   (1864,1864,220),(1865,1866,230),(2027,2033,230),(2034,2034,220),(2035,2035,230),(2045,2045,220),
   (2070,2073,230),(2075,2083,230),(2085,2087,230),(2089,2093,230),(2137,2139,220),(2200,2200,230),
   (2201,2203,220),(2204,2207,230),(2250,2254,230),(2255,2259,220),(2260,2273,230),(2275,2275,220),
   (2276,2277,230),(2278,2278,220),(2279,2280,230),(2281,2281,220),(2282,2284,230),(2285,2287,220),
   (2288,2288,27),(2289,2289,28),(2290,2290,29),(2291,2293,230),(2294,2294,220),(2295,2296,230),
   (2297,2298,220),(2299,2303,230),(2364,2364,7),(2381,2381,9),(2385,2385,230),(2386,2386,220),
   (2387,2388,230),(2492,2492,7),(2509,2509,9),(2558,2558,230),(2620,2620,7),(2637,2637,9),
   (2748,2748,7),(2765,2765,9),(2876,2876,7),(2893,2893,9),(3021,3021,9),(3132,3132,7),
   (3149,3149,9),(3157,3157,84),(3158,3158,91),(3260,3260,7),(3277,3277,9),(3387,3388,9),
   (3405,3405,9),(3530,3530,9),(3640,3641,103),(3642,3642,9),(3656,3659,107),(3768,3769,118),
   (3770,3770,9),(3784,3787,122),(3864,3865,220),(3893,3893,220),(3895,3895,220),(3897,3897,216),
   (3953,3953,129),(3954,3954,130),(3956,3956,132),(3962,3965,130),(3968,3968,130),(3970,3971,230),
   (3972,3972,9),(3974,3975,230),(4038,4038,220),(4151,4151,7),(4153,4154,9),(4237,4237,220),
   (4957,4959,230),(5908,5909,9),(5940,5940,9),(6098,6098,9),(6109,6109,230),(6313,6313,228),
   (6457,6457,222),(6458,6458,230),(6459,6459,220),(6679,6679,230),(6680,6680,220),(6752,6752,9),
   (6773,6780,230),(6783,6783,220),(6832,6836,230),(6837,6842,220),(6843,6844,230),(6845,6845,220),
   (6847,6848,220),(6849,6850,230),(6851,6852,220),(6853,6857,230),(6858,6858,220),(6859,6862,230),
   (6964,6964,7),(6980,6980,9),(7019,7019,230),(7020,7020,220),(7021,7027,230),(7082,7083,9),
   (7142,7142,7),(7154,7155,9),(7223,7223,7),(7376,7378,230),(7380,7380,1),(7381,7385,220),
   (7386,7387,230),(7388,7391,220),(7392,7392,230),(7394,7400,1),(7405,7405,220),(7412,7412,230),
   (7416,7417,230),(7616,7617,230),(7618,7618,220),(7619,7625,230),(7626,7626,220),(7627,7628,230),
   (7629,7629,234),(7630,7630,214),(7631,7631,220),(7632,7632,202),(7633,7669,230),(7670,7670,232),
   (7671,7672,228),(7673,7673,220),(7674,7674,218),(7675,7675,230),(7676,7676,233),(7677,7677,220),
   (7678,7678,230),(7679,7679,220),(8400,8401,230),(8402,8403,1),(8404,8407,230),(8408,8410,1),
   (8411,8412,230),(8417,8417,230),(8421,8422,1),(8423,8423,230),(8424,8424,220),(8425,8425,230),
   (8426,8427,1),(8428,8431,220),(8432,8432,230),(11503,11505,230),(11647,11647,9),
   (11744,11775,230),(12330,12330,218),(12331,12331,228),(12332,12332,232),(12333,12333,222),
   (12334,12335,224),(12441,12442,8),(42607,42607,230),(42612,42621,230),(42654,42655,230),
   (42736,42737,230),(43014,43014,9),(43052,43052,9),(43204,43204,9),(43232,43249,230),
   (43307,43309,220),(43347,43347,9),(43443,43443,7),(43456,43456,9),(43696,43696,230),
   (43698,43699,230),(43700,43700,220),(43703,43704,230),(43710,43711,230),(43713,43713,230),
   (43766,43766,9),(44013,44013,9),(64286,64286,26),(65056,65062,230),(65063,65069,220),
   (65070,65071,230),(66045,66045,220),(66272,66272,220),(66422,66426,230),(68109,68109,220),
   (68111,68111,230),(68152,68152,230),(68153,68153,1),(68154,68154,220),(68159,68159,9),
   (68325,68325,230),(68326,68326,220),(68900,68903,230),(69291,69292,230),(69446,69447,220),
   (69448,69450,230),(69451,69451,220),(69452,69452,230),(69453,69456,220),(69506,69506,230),
   (69507,69507,220),(69508,69508,230),(69509,69509,220),(69702,69702,9),(69744,69744,9),
   (69759,69759,9),(69817,69817,9),(69818,69818,7),(69888,69890,230),(69939,69940,9),
   (70003,70003,7),(70080,70080,9),(70090,70090,7),(70197,70197,9),(70198,70198,7),(70377,70377,7),
   (70378,70378,9),(70459,70460,7),(70477,70477,9),(70502,70508,230),(70512,70516,230),
   (70722,70722,9),(70726,70726,7),(70750,70750,230),(70850,70850,9),(70851,70851,7),
   (71103,71103,9),(71104,71104,7),(71231,71231,9),(71350,71350,9),(71351,71351,7),(71467,71467,9),
   (71737,71737,9),(71738,71738,7),(71997,71998,9),(72003,72003,7),(72160,72160,9),(72244,72244,9),
   (72263,72263,9),(72345,72345,9),(72767,72767,9),(73026,73026,7),(73028,73029,9),(73111,73111,9),
   (92912,92916,1),(92976,92982,230),(94192,94193,6),(113822,113822,1),(119141,119142,216),
   (119143,119145,1),(119149,119149,226),(119150,119154,216),(119163,119170,220),
   (119173,119177,230),(119178,119179,220),(119210,119213,230),(119362,119364,230),
   (122880,122886,230),(122888,122904,230),(122907,122913,230),(122915,122916,230),
   (122918,122922,230),(123184,123190,230),(123566,123566,230),(123628,123631,230),
   (125136,125142,220),(125252,125257,230),(125258,125258,7)]

/-- The combining class of a character.  There are no marks before U+0300. -/
def combiningClass (char : Char) : Nat :=
  let code := char.toNat
  if code < 768 then
    0
  else
    match combiningClasses.find? fun range => range.1 ≤ code && code ≤ range.2.1 with
    | some range => range.2.2
    | none => 0

theorem combiningClass_eq_zero {char : Char} (hbefore : char.toNat < 768) :
    combiningClass char = 0 := by
  simp only [combiningClass, hbefore, if_true]

end HoareCheck.Text
